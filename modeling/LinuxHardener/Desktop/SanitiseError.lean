import LinuxHardener.Lib.ByteText
import LinuxHardener.Lib.TextRuns
import LinuxHardener.Lib.Trimmed

/-
  What the GUI is shown of an error message (`sanitise_error` in `src-tauri/src/commands/mod.rs`).

  Correspondence (Rust ↔ Lean):
    `sanitise_error`          ↔ `sanitiseError`, its loop over the characters `sanitiseFrom`,
                                the loop over a path `scanPath`
    the three replacements    ↔ `ownDirectories`, `replaceOwn`
    `char::is_alphanumeric`   ↔ `Alphabet.isAlphanumeric`, of which only the ASCII part matters
  The loop counts characters and cuts bytes; where a cut falls inside a character it panics (`none`).

  What is proved:
    1. `sanitiseFrom_eq` — what the loop makes of a text whose paths end before the first character
       outside ASCII.
    2. `scanned_replaceOwn` — what is made of one run of path characters.
    3. `sanitised_of_readable` — a condition under which every path is hidden and nothing else
       changed.
-/
namespace LinuxHardener.Desktop.SanitiseError

open LineText TextRuns Trimmed

/-- `char::is_alphanumeric` -/
structure Alphabet where
  isAlphanumeric : Char → Bool
  ascii : ∀ c : Char, c.toNat < 128 → isAlphanumeric c = c.isAlphanum

variable (A : Alphabet)

def Alphabet.isPathChar (c : Char) : Bool := A.isAlphanumeric c || "/-_.".toList.contains c

/-- The directories of the tool itself, and what is shown for them. -/
def ownDirectories : List (Chars × Chars) :=
  [("/etc/linux-hardener/", "[config]/"), ("/var/lib/linux-hardener/", "[data]/"), ("/var/log/linux-hardener/", "[log]/")]

def replaceOwn (msg : Chars) : Chars := ownDirectories.foldl (fun text own => replaceText own.1 own.2 text) msg

/-- A slash with a letter or a digit behind it. -/
def Alphabet.opens (c : Char) (s : Chars) : Bool := c == '/' && s.head?.any A.isAlphanumeric

/-- The scan over a path, from position `j` on: where its last slash stands, and where it ends. -/
def scanPath (lastSlash j : Nat) : Chars → Nat × Nat
  | [] => (lastSlash, j)
  | c :: s => if A.isPathChar c then scanPath (if c = '/' then j else lastSlash) (j + 1) s else (lastSlash, j)

/-- The loop, at the character `i` of the text, of which `rest` is still to come. -/
def sanitiseFrom (text : Chars) (i : Nat) (rest : Chars) : Option Chars :=
  match rest with
  | [] => some []
  | c :: rest =>
    if A.opens c rest then
      let scan := scanPath A i (i + 1) rest
      let piece := if i < scan.1 then ByteText.slice text (scan.1 + 1) scan.2 else ByteText.slice text i scan.2
      piece.bind fun piece => (sanitiseFrom text scan.2 (rest.drop (scan.2 - (i + 1)))).map (piece ++ ·)
    else (sanitiseFrom text (i + 1) rest).map (c :: ·)
termination_by rest.length
decreasing_by
  · rw [List.length_drop, List.length_cons]
    omega
  · exact Nat.lt_succ_self _

/-- What the GUI is shown, or a panic. -/
def sanitiseError (msg : Chars) : Option Chars := sanitiseFrom A (replaceOwn msg) 0 (replaceOwn msg)

/-! ## What should be shown -/

def isSlash (c : Char) : Bool := c == '/'

/-- An absolute path of two or more segments: a slash is left when those at the ends are taken off. -/
def multiSegment (w : Chars) : Bool := w.head? == some '/' && (trimMatches isSlash w).any isSlash

def lastSegment (w : Chars) : Chars := ((trimMatches isSlash w).reverse.takeWhile fun c => !isSlash c).reverse

/-- A run of path characters, a path in it replaced by its last segment, behind the directory's
placeholder where the directory is one of the tool's own. -/
def hideRun (w : Chars) : Chars :=
  match ownDirectories.find? fun own => own.1.isPrefixOf w with
  | some own =>
    let rest := w.drop own.1.length
    if rest.any isSlash then own.2.dropLast ++ lastSegment rest else own.2 ++ rest
  | none => if multiSegment w then lastSegment w else w

def hide (msg : Chars) : Chars :=
  match msg with
  | [] => []
  | c :: s =>
    if A.isPathChar c then hideRun ((c :: s).takeWhile A.isPathChar) ++ hide (s.dropWhile A.isPathChar)
    else c :: hide s
termination_by msg.length
decreasing_by
  · exact Nat.lt_succ_of_le (List.length_dropWhile_le ..)
  · exact Nat.lt_succ_self _

/-! ## The loop -/

variable {A}

theorem isPathChar_slash : A.isPathChar '/' = true := by
  rw [Alphabet.isPathChar, Bool.or_eq_true]
  exact .inr (by decide)

theorem isPathChar_of_isAlphanumeric {c : Char} (h : A.isAlphanumeric c = true) : A.isPathChar c = true := by
  rw [Alphabet.isPathChar, h, Bool.true_or]

/-- A character of no path is no slash, and opens none. -/
theorem opens_of_not_isPathChar {c : Char} {s : Chars} (hc : A.isPathChar c = false) : A.opens c s = false := by
  rw [Alphabet.opens, Bool.and_eq_false_iff]
  refine .inl (beq_eq_false_iff_ne.mpr ?_)
  rintro rfl
  rw [isPathChar_slash] at hc
  cases hc

/-- What stands behind the last slash. -/
def behindLast (w : Chars) : Chars := (w.reverse.takeWhile fun c => !isSlash c).reverse

theorem exists_behindLast {w : Chars} (h : '/' ∈ w) : ∃ a, w = a ++ '/' :: behindLast w ∧ '/' ∉ behindLast w := by
  have hmem : '/' ∈ w.reverse := List.mem_reverse.mpr h
  have hsplit := List.takeWhile_append_dropWhile (p := fun c => !isSlash c) (l := w.reverse)
  have hnot : '/' ∉ behindLast w := by
    intro hin
    have hp := List.mem_takeWhile_imp (List.mem_reverse.mp hin)
    exact absurd hp (by decide)
  cases hdrop : w.reverse.dropWhile fun c => !isSlash c with
  | nil =>
    rw [hdrop, List.append_nil] at hsplit
    rw [← hsplit] at hmem
    exact absurd (List.mem_reverse.mpr hmem) hnot
  | cons d a =>
    have hd := head_dropWhile (p := fun c => !isSlash c) w.reverse d (by rw [hdrop]; rfl)
    have hslash : d = '/' := by simpa [isSlash] using hd
    subst hslash
    refine ⟨a.reverse, ?_, hnot⟩
    rw [hdrop] at hsplit
    have hback := congrArg List.reverse hsplit
    rw [List.reverse_append, List.reverse_reverse, List.reverse_cons, List.append_assoc] at hback
    exact hback.symm

theorem scanPath_plain {w v : Chars} (hw : ∀ c ∈ w, A.isPathChar c = true) (hv : ∀ c, v.head? = some c → A.isPathChar c = false)
    (hslash : '/' ∉ w) (lastSlash j : Nat) : scanPath A lastSlash j (w ++ v) = (lastSlash, j + w.length) := by
  induction w generalizing j with
  | nil =>
    cases v with
    | nil => rfl
    | cons c v =>
      rw [List.nil_append, scanPath, hv c rfl]
      rfl
  | cons c w ih =>
    have hc : c ≠ '/' := fun h => hslash (h ▸ List.mem_cons_self)
    rw [List.cons_append, scanPath, hw c List.mem_cons_self, if_pos rfl, if_neg hc,
      ih (fun d hd => hw d (List.mem_cons_of_mem _ hd)) fun h => hslash (List.mem_cons_of_mem _ h), List.length_cons, Nat.add_assoc,
      Nat.add_comm 1]

theorem scanPath_slashed {a b v : Chars} (ha : ∀ c ∈ a, A.isPathChar c = true) (hb : ∀ c ∈ b, A.isPathChar c = true)
    (hv : ∀ c, v.head? = some c → A.isPathChar c = false) (hslash : '/' ∉ b) (lastSlash j : Nat) :
    scanPath A lastSlash j (a ++ '/' :: b ++ v) = (j + a.length, j + (a ++ '/' :: b).length) := by
  induction a generalizing lastSlash j with
  | nil =>
    rw [List.nil_append, List.cons_append, scanPath, isPathChar_slash, if_pos rfl, if_pos rfl, scanPath_plain hb hv hslash,
      List.length_cons, Nat.add_assoc, Nat.add_comm 1]
    rfl
  | cons c a ih =>
    rw [List.cons_append, List.cons_append, scanPath, ha c List.mem_cons_self, if_pos rfl,
      ih fun d hd => ha d (List.mem_cons_of_mem _ hd)]
    simp only [List.length_cons]
    rw [Nat.add_assoc, Nat.add_comm 1, Nat.add_assoc, Nat.add_comm 1]

/-- What the loop makes of a text, cut as it is meant to be. -/
def scanned (A : Alphabet) (s : Chars) : Chars :=
  match s with
  | [] => []
  | c :: s =>
    if A.opens c s then
      let w := s.takeWhile A.isPathChar
      (if w.any isSlash then behindLast w else c :: w) ++ scanned A (s.dropWhile A.isPathChar)
    else c :: scanned A s
termination_by s.length
decreasing_by
  · exact Nat.lt_succ_of_le (List.length_dropWhile_le ..)
  · exact Nat.lt_succ_self _

/-- No path is opened. -/
def Alphabet.quiet (A : Alphabet) : Chars → Bool
  | [] => true
  | c :: s => !A.opens c s && A.quiet s

theorem sanitiseFrom_quiet {s : Chars} (h : A.quiet s = true) (text : Chars) (i : Nat) : sanitiseFrom A text i s = some s := by
  induction s generalizing i with
  | nil => rw [sanitiseFrom]
  | cons c s ih =>
    rw [Alphabet.quiet, Bool.and_eq_true, Bool.not_eq_true'] at h
    rw [sanitiseFrom, h.1, if_neg Bool.false_ne_true, ih h.2]
    rfl

theorem scanned_quiet {s : Chars} (h : A.quiet s = true) : scanned A s = s := by
  induction s with
  | nil => rw [scanned]
  | cons c s ih =>
    rw [Alphabet.quiet, Bool.and_eq_true, Bool.not_eq_true'] at h
    rw [scanned, h.1, if_neg Bool.false_ne_true, ih h.2]

theorem len_of_ascii {s : Chars} (h : ∀ c ∈ s, c.toNat < 128) : ByteText.len s = s.length := by
  refine ByteText.len_eq_length fun c hc => ?_
  rw [Char.utf8Size_eq_one_iff, UInt32.le_iff_toNat_le]
  exact Nat.le_of_lt_succ (h c hc)

/-- A piece of ASCII behind ASCII is cut where it is counted. -/
theorem slice_ascii {s t u : Chars} (hs : ∀ c ∈ s, c.toNat < 128) (ht : ∀ c ∈ t, c.toNat < 128) :
    ByteText.slice (s ++ t ++ u) s.length (s.length + t.length) = some t := by
  rw [← len_of_ascii hs, ← len_of_ascii ht]
  exact ByteText.slice_append s t u

/-- Where the paths end before the first character outside ASCII, the loop cuts as it is meant to. -/
theorem sanitiseFrom_eq {before front back : Chars} (hascii : ∀ c ∈ before ++ front, c.toNat < 128)
    (hback : A.quiet back = true) (hhead : ∀ c, back.head? = some c → A.isPathChar c = false) :
    sanitiseFrom A (before ++ front ++ back) before.length (front ++ back) = some (scanned A (front ++ back)) := by
  induction hn : front.length using Nat.strong_induction_on generalizing before front with
  | _ n ih =>
    subst hn
    cases front with
    | nil =>
      rw [List.nil_append, sanitiseFrom_quiet hback, scanned_quiet hback]
    | cons c front =>
      have hbefore : ∀ d ∈ before, d.toNat < 128 := fun d hd => hascii d (List.mem_append_left _ hd)
      have hfront : ∀ d ∈ c :: front, d.toNat < 128 := fun d hd => hascii d (List.mem_append_right _ hd)
      rw [List.cons_append, sanitiseFrom, scanned]
      cases hopens : A.opens c (front ++ back) with
      | false =>
        have hascii' : ∀ d ∈ before ++ [c] ++ front, d.toNat < 128 := by
          simpa only [List.append_assoc, List.singleton_append] using hascii
        have hnext := ih front.length (Nat.lt_succ_self _) hascii' rfl
        rw [List.length_append, List.length_singleton, List.append_assoc before, List.singleton_append] at hnext
        rw [if_neg Bool.false_ne_true, if_neg Bool.false_ne_true, hnext]
        rfl
      | true =>
        obtain ⟨w, rest, rfl, hrun, hstop⟩ := exists_run A.isPathChar front
        have hrest : ∀ d, (rest ++ back).head? = some d → A.isPathChar d = false := by
          cases rest with
          | nil => exact hhead
          | cons e rest => exact hstop
        rw [List.append_assoc w, if_pos rfl, if_pos rfl, takeWhile_run hrun hrest, dropWhile_run hrun hrest]
        have hpath : ∀ d ∈ c :: w, d.toNat < 128 := fun d hd => hfront d (List.mem_append_left rest hd)
        have hshorter : rest.length < (c :: (w ++ rest)).length := by
          rw [List.length_cons, List.length_append]
          omega
        have hascii' : ∀ d ∈ before ++ c :: w ++ rest, d.toNat < 128 := by
          simpa only [List.append_assoc, List.cons_append] using hascii
        have hnext := ih rest.length hshorter hascii' rfl
        have htext : before ++ c :: (w ++ rest) ++ back = before ++ c :: w ++ rest ++ back := by
          simp only [List.append_assoc, List.cons_append]
        rw [List.length_append, List.length_cons, Nat.add_comm w.length, ← Nat.add_assoc] at hnext
        by_cases hslash : '/' ∈ w
        · have hany : w.any isSlash = true := List.any_eq_true.mpr ⟨'/', hslash, rfl⟩
          obtain ⟨a, hw, hbehind⟩ := exists_behindLast hslash
          have ha : ∀ d ∈ a, A.isPathChar d = true := fun d hd => hrun d (hw ▸ List.mem_append_left _ hd)
          have hb : ∀ d ∈ behindLast w, A.isPathChar d = true :=
            fun d hd => hrun d (hw ▸ List.mem_append_right _ (List.mem_cons_of_mem _ hd))
          have hscan : scanPath A before.length (before.length + 1) (w ++ (rest ++ back)) =
              (before.length + 1 + a.length, before.length + 1 + w.length) := by
            conv_lhs => rw [hw]
            rw [scanPath_slashed ha hb hrest hbehind, ← hw]
          have hslice : ByteText.slice (before ++ c :: (w ++ rest) ++ back) (before.length + 1 + a.length + 1)
              (before.length + 1 + w.length) = some (behindLast w) := by
            have hstart : ∀ d ∈ before ++ c :: a ++ ['/'], d.toNat < 128 := by
              intro d hd
              obtain hd | hd := List.mem_append.mp hd
              · obtain hd | hd := List.mem_append.mp hd
                · exact hbefore d hd
                · obtain rfl | hd := List.mem_cons.mp hd
                  · exact hpath d List.mem_cons_self
                  · exact hpath d (List.mem_cons_of_mem _ (hw ▸ List.mem_append_left _ hd))
              · obtain rfl := List.mem_singleton.mp hd
                decide
            have hend : ∀ d ∈ behindLast w, d.toNat < 128 :=
              fun d hd => hpath d (List.mem_cons_of_mem _ (hw ▸ List.mem_append_right _ (List.mem_cons_of_mem _ hd)))
            have hwhole : before ++ c :: (w ++ rest) ++ back = before ++ c :: a ++ ['/'] ++ behindLast w ++ (rest ++ back) := by
              conv_lhs => rw [hw]
              simp only [List.append_assoc, List.cons_append, List.nil_append]
            have hlength : (before ++ c :: a ++ ['/']).length = before.length + 1 + a.length + 1 := by
              simp only [List.length_append, List.length_cons, List.length_nil]
              omega
            have hcount : w.length = a.length + 1 + (behindLast w).length := by
              conv_lhs => rw [hw]
              simp only [List.length_append, List.length_cons]
              omega
            have hcut := slice_ascii (u := rest ++ back) hstart hend
            rw [← hwhole, hlength] at hcut
            rw [hcount, ← Nat.add_assoc, ← Nat.add_assoc]
            exact hcut
          rw [hscan]
          dsimp only
          rw [if_pos (by omega), hslice, Option.bind_some, Nat.add_sub_cancel_left, List.drop_left, htext, hnext, hany, if_pos rfl]
          rfl
        · have hany : w.any isSlash = false := by
            rw [List.any_eq_false]
            intro d hd hslash'
            exact hslash ((beq_iff_eq.mp hslash') ▸ hd)
          have hslice : ByteText.slice (before ++ c :: (w ++ rest) ++ back) before.length (before.length + 1 + w.length) = some (c :: w) := by
            have hcut := slice_ascii (u := rest ++ back) hbefore hpath
            rw [List.length_cons, Nat.add_comm w.length, ← Nat.add_assoc] at hcut
            simpa only [List.append_assoc, List.cons_append] using hcut
          rw [scanPath_plain hrun hrest hslash]
          dsimp only
          rw [if_neg (Nat.lt_irrefl _), hslice, Option.bind_some, Nat.add_sub_cancel_left, List.drop_left, htext, hnext, hany,
            if_neg Bool.false_ne_true]
          rfl

/-! ## A run -/

theorem isPathChar_own {own : Chars × Chars} (h : own ∈ ownDirectories) : ∀ c ∈ own.1, A.isPathChar c = true := by
  have hplain : (ownDirectories.all fun own => own.1.all fun c =>
      (c.isAlphanum || "/-_.".toList.contains c) && decide (c.toNat < 128)) = true := by decide
  intro c hc
  obtain ⟨hchar, hascii⟩ := Bool.and_eq_true_iff.mp (List.all_eq_true.mp (List.all_eq_true.mp hplain own h) c hc)
  rw [Alphabet.isPathChar, A.ascii c (of_decide_eq_true hascii)]
  exact hchar

/-- What is scanned before a character of no path is scanned alone. -/
theorem scanned_append {u v : Chars} (hv : ∀ c, v.head? = some c → A.isPathChar c = false) :
    scanned A (u ++ v) = scanned A u ++ scanned A v := by
  induction hn : u.length using Nat.strong_induction_on generalizing u with
  | _ n ih =>
    subst hn
    cases u with
    | nil =>
      rw [List.nil_append, scanned.eq_def A [], List.nil_append]
    | cons c u =>
      have hsame : A.opens c (u ++ v) = A.opens c u := by
        cases u with
        | cons d u => rfl
        | nil =>
          cases v with
          | nil => rfl
          | cons d v =>
            have hd : A.isAlphanumeric d = false := by
              rw [← Bool.not_eq_true]
              intro halnum
              have hpath := hv d rfl
              rw [isPathChar_of_isAlphanumeric halnum] at hpath
              cases hpath
            simp [Alphabet.opens, hd]
      rw [List.cons_append, scanned, scanned, hsame]
      cases hopens : A.opens c u with
      | false =>
        rw [if_neg Bool.false_ne_true, if_neg Bool.false_ne_true, ih u.length (Nat.lt_succ_self _) rfl]
        rfl
      | true =>
        obtain ⟨w, rest, rfl, hrun, hstop⟩ := exists_run A.isPathChar u
        have hrest : ∀ d, (rest ++ v).head? = some d → A.isPathChar d = false := by
          cases rest with
          | nil => exact hv
          | cons e rest => exact hstop
        have hshorter : rest.length < (c :: (w ++ rest)).length := by
          rw [List.length_cons, List.length_append]
          omega
        rw [List.append_assoc w, if_pos rfl, if_pos rfl, takeWhile_run hrun hrest, dropWhile_run hrun hrest, takeWhile_run hrun hstop,
          dropWhile_run hrun hstop, ih rest.length hshorter rfl, List.append_assoc]

/-- What opens no path is scanned as it is. -/
theorem scanned_plain {u v : Chars} (h : '/' ∉ u) : scanned A (u ++ v) = u ++ scanned A v := by
  induction u with
  | nil => rfl
  | cons c u ih =>
    have hc : A.opens c (u ++ v) = false := by
      rw [Alphabet.opens, beq_eq_false_iff_ne.mpr fun heq : c = '/' => h (heq ▸ List.mem_cons_self)]
      rfl
    rw [List.cons_append, scanned, hc, if_neg Bool.false_ne_true, ih fun hmem => h (List.mem_cons_of_mem _ hmem)]
    rfl

theorem behindLast_append {a b : Chars} (h : '/' ∉ b) : behindLast (a ++ '/' :: b) = b := by
  have hb : ∀ c ∈ b.reverse, (!isSlash c) = true := by
    intro c hc
    rw [Bool.not_eq_true', isSlash, beq_eq_false_iff_ne]
    exact fun heq => h (heq ▸ List.mem_reverse.mp hc)
  rw [behindLast, List.reverse_append, List.reverse_cons, List.append_assoc, List.takeWhile_append_of_pos hb]
  change (b.reverse ++ List.takeWhile _ ('/' :: a.reverse)).reverse = b
  rw [List.takeWhile_cons_of_neg (by decide), List.append_nil, List.reverse_reverse]

theorem behindLast_of_not_mem {b : Chars} (h : '/' ∉ b) : behindLast b = b := by
  rw [behindLast, List.takeWhile_eq_self_iff.mpr, List.reverse_reverse]
  intro c hc
  rw [Bool.not_eq_true', isSlash, beq_eq_false_iff_ne]
  exact fun heq => h (heq ▸ List.mem_reverse.mp hc)

/-- The last segment of a path that does not end in a slash stands behind its last slash. -/
theorem lastSegment_eq {w : Chars} (h : w.getLast? ≠ some '/') : lastSegment w = behindLast w := by
  obtain ⟨lead, trail, hw, hlead, htrail, -⟩ := exists_trimMatches isSlash w
  have hnone : trail = [] := by
    rcases List.eq_nil_or_concat trail with rfl | ⟨rest, c, rfl⟩
    · rfl
    · have hc : c = '/' := beq_iff_eq.mp (htrail c (by simp))
      rw [hw, hc, List.concat_eq_append, ← List.append_assoc, List.getLast?_concat] at h
      exact absurd rfl h
  rw [hnone, List.append_nil] at hw
  change behindLast (trimMatches isSlash w) = behindLast w
  generalize trimMatches isSlash w = middle at hw
  rw [hw]
  by_cases hslash : '/' ∈ middle
  · obtain ⟨a, hmiddle, hbehind⟩ := exists_behindLast hslash
    conv_rhs => rw [hmiddle, ← List.append_assoc, behindLast_append hbehind]
  · rw [behindLast_of_not_mem hslash]
    rcases List.eq_nil_or_concat lead with rfl | ⟨rest, c, rfl⟩
    · exact (behindLast_of_not_mem hslash).symm
    · have hc : c = '/' := beq_iff_eq.mp (hlead c (by simp))
      rw [hc, List.concat_eq_append, List.append_assoc, List.singleton_append, behindLast_append hslash]

/-- A run that is scanned from its first slash on. -/
theorem scanned_opened {w : Chars} (hw : ∀ c ∈ w, A.isPathChar c = true) (h : w.head?.any A.isAlphanumeric = true) :
    scanned A ('/' :: w) = if '/' ∈ w then behindLast w else '/' :: w := by
  have hopens : A.opens '/' w = true := by
    rw [Alphabet.opens, h]
    rfl
  have hall : w.takeWhile A.isPathChar = w := List.takeWhile_eq_self_iff.mpr hw
  have hnone : w.dropWhile A.isPathChar = [] := List.dropWhile_eq_nil_iff.mpr hw
  rw [scanned, hopens, if_pos rfl, hall, hnone, scanned.eq_def A [], List.append_nil]
  by_cases hslash : '/' ∈ w
  · rw [if_pos hslash, if_pos (List.any_eq_true.mpr ⟨'/', hslash, rfl⟩)]
  · have hany : ¬ w.any isSlash = true := by
      intro hany
      obtain ⟨c, hc, hcs⟩ := List.any_eq_true.mp hany
      exact hslash ((beq_iff_eq.mp hcs) ▸ hc)
    rw [if_neg hslash, if_neg hany]

/-- A run whose slashes open no path of more than one segment is scanned as it is. -/
theorem scanned_unchanged {w : Chars} (hw : ∀ c ∈ w, A.isPathChar c = true)
    (h : ∀ a b, w = a ++ '/' :: b → b.head?.any A.isAlphanumeric = true → '/' ∉ b) : scanned A w = w := by
  induction w with
  | nil => rw [scanned]
  | cons c w ih =>
    have hrest : ∀ d ∈ w, A.isPathChar d = true := fun d hd => hw d (List.mem_cons_of_mem _ hd)
    cases hopens : A.opens c w with
    | false =>
      rw [scanned, hopens, if_neg Bool.false_ne_true, ih hrest fun a b heq => h (c :: a) b (by rw [heq]; rfl)]
    | true =>
      obtain ⟨hc, halnum⟩ := Bool.and_eq_true_iff.mp hopens
      obtain rfl : c = '/' := beq_iff_eq.mp hc
      rw [scanned_opened hrest halnum, if_neg (h [] w rfl halnum)]

/-! ## The tool's own directories -/

theorem own_ne_nil {own : Chars × Chars} (h : own ∈ ownDirectories) : own.1 ≠ [] := by
  have hall : ∀ own ∈ ownDirectories, own.1 ≠ [] := by decide
  exact hall own h

theorem replaceOwn_append {u v : Chars} (hv : ∀ c, v.head? = some c → A.isPathChar c = false) :
    replaceOwn (u ++ v) = replaceOwn u ++ replaceOwn v := by
  have hfold : ∀ owns : List (Chars × Chars), owns ⊆ ownDirectories → ∀ u v : Chars, (∀ c, v.head? = some c → A.isPathChar c = false) →
      owns.foldl (fun text own => replaceText own.1 own.2 text) (u ++ v) =
        owns.foldl (fun text own => replaceText own.1 own.2 text) u ++ owns.foldl (fun text own => replaceText own.1 own.2 text) v := by
    intro owns howns
    induction owns with
    | nil => exact fun _ _ _ => rfl
    | cons own owns ih =>
      intro u v hv
      have hmem := howns List.mem_cons_self
      rw [List.foldl_cons, List.foldl_cons, List.foldl_cons, replaceText_append (own_ne_nil hmem) (isPathChar_own hmem) hv]
      exact ih (fun _ h => howns (List.mem_cons_of_mem _ h)) _ _ (head_replaceText (own_ne_nil hmem) (isPathChar_own hmem) hv)
  exact hfold ownDirectories (List.Subset.refl _) u v hv

theorem head_replaceOwn {v : Chars} (hv : ∀ c, v.head? = some c → A.isPathChar c = false) :
    ∀ c, (replaceOwn v).head? = some c → A.isPathChar c = false := by
  have hfold : ∀ owns : List (Chars × Chars), owns ⊆ ownDirectories → ∀ v : Chars, (∀ c, v.head? = some c → A.isPathChar c = false) →
      ∀ c, (owns.foldl (fun text own => replaceText own.1 own.2 text) v).head? = some c → A.isPathChar c = false := by
    intro owns howns
    induction owns with
    | nil => exact fun _ hv => hv
    | cons own owns ih =>
      intro v hv
      have hmem := howns List.mem_cons_self
      exact ih (fun _ h => howns (List.mem_cons_of_mem _ h)) _ (head_replaceText (own_ne_nil hmem) (isPathChar_own hmem) hv)
  exact hfold ownDirectories (List.Subset.refl _) v hv

theorem replaceOwn_eq_self {w : Chars} (h : ∀ own ∈ ownDirectories, ¬ own.1 <:+: w) : replaceOwn w = w := by
  have hfold : ∀ owns : List (Chars × Chars), owns ⊆ ownDirectories →
      owns.foldl (fun text own => replaceText own.1 own.2 text) w = w := by
    intro owns howns
    induction owns with
    | nil => rfl
    | cons own owns ih =>
      rw [List.foldl_cons, replaceText_of_not_infix (h own (howns List.mem_cons_self))]
      exact ih fun _ hmem => howns (List.mem_cons_of_mem _ hmem)
  exact hfold ownDirectories (List.Subset.refl _)

/-- Two texts differ where both have a character. -/
def clash (pat t : Chars) : Bool := (pat.zip t).any fun cs => cs.1 != cs.2

theorem not_prefix_of_clash {pat t : Chars} (h : clash pat t = true) (v : Chars) : ¬ pat <+: t ++ v := by
  rintro ⟨rest, hrest⟩
  obtain ⟨cs, hcs, hdiff⟩ := List.any_eq_true.mp h
  obtain ⟨i, hi, rfl⟩ := List.mem_iff_getElem.mp hcs
  rw [List.length_zip] at hi
  rw [List.getElem_zip] at hdiff
  have hsame : (pat ++ rest)[i]? = (t ++ v)[i]? := by rw [hrest]
  rw [List.getElem?_append_left (by omega), List.getElem?_append_left (by omega), List.getElem?_eq_getElem (by omega),
    List.getElem?_eq_getElem (by omega)] at hsame
  exact absurd (Option.some.inj hsame) (bne_iff_ne.mp hdiff)

/-- The pattern begins at no character of the text. -/
def keepsOff (pat : Chars) : Chars → Bool
  | [] => true
  | c :: u => clash pat (c :: u) && keepsOff pat u

theorem replaceText_keepsOff {pat new u v : Chars} (h : keepsOff pat u = true) (hv : ¬ pat <:+: v) :
    replaceText pat new (u ++ v) = u ++ v := by
  induction u with
  | nil => exact replaceText_of_not_infix hv
  | cons c u ih =>
    rw [keepsOff, Bool.and_eq_true] at h
    have hnot : ¬ pat <+: c :: (u ++ v) := not_prefix_of_clash h.1 v
    rw [List.cons_append, replaceText_cons hnot, ih h.2]

/-- A directory and what is shown for it end in their only common slash with what is behind them. -/
theorem own_split {own : Chars × Chars} (h : own ∈ ownDirectories) (rest : Chars) :
    own.1 ++ rest = own.1.dropLast ++ '/' :: rest ∧ own.2 ++ rest = own.2.dropLast ++ '/' :: rest := by
  have hall : ∀ own ∈ ownDirectories, own.1 = own.1.dropLast ++ ['/'] ∧ own.2 = own.2.dropLast ++ ['/'] := by decide
  obtain ⟨hpath, hshown⟩ := hall own h
  constructor
  · conv_lhs => rw [hpath, List.append_assoc, List.singleton_append]
  · conv_lhs => rw [hshown, List.append_assoc, List.singleton_append]

/-- Another directory begins nowhere in a directory, and none in what is shown for one. -/
theorem own_keepsOff {own other : Chars × Chars} (h : own ∈ ownDirectories) (ho : other ∈ ownDirectories) :
    (other ≠ own → keepsOff other.1 own.1.dropLast = true) ∧ keepsOff other.1 own.2.dropLast = true := by
  have hall : ∀ own ∈ ownDirectories, ∀ other ∈ ownDirectories,
      (other ≠ own → keepsOff other.1 own.1.dropLast = true) ∧ keepsOff other.1 own.2.dropLast = true := by decide
  exact hall own h other ho

theorem replaceOwn_own {own : Chars × Chars} (hown : own ∈ ownDirectories) {rest : Chars}
    (h : ∀ other ∈ ownDirectories, ¬ other.1 <:+: '/' :: rest) : replaceOwn (own.1 ++ rest) = own.2 ++ rest := by
  obtain ⟨hpath, hshown⟩ := own_split hown rest
  have hstays : ∀ owns : List (Chars × Chars), owns ⊆ ownDirectories →
      owns.foldl (fun text own => replaceText own.1 own.2 text) (own.2 ++ rest) = own.2 ++ rest := by
    intro owns howns
    induction owns with
    | nil => rfl
    | cons other owns ih =>
      have hmem := howns List.mem_cons_self
      have hkeep : replaceText other.1 other.2 (own.2 ++ rest) = own.2 ++ rest := by
        rw [hshown, replaceText_keepsOff (own_keepsOff hown hmem).2 (h other hmem)]
      rw [List.foldl_cons, hkeep]
      exact ih fun _ hm => howns (List.mem_cons_of_mem _ hm)
  have hreplaced : ∀ owns : List (Chars × Chars), owns ⊆ ownDirectories → own ∈ owns →
      owns.foldl (fun text own => replaceText own.1 own.2 text) (own.1 ++ rest) = own.2 ++ rest := by
    intro owns howns hin
    induction owns with
    | nil => cases hin
    | cons other owns ih =>
      have hmem := howns List.mem_cons_self
      have hsub : owns ⊆ ownDirectories := fun _ hm => howns (List.mem_cons_of_mem _ hm)
      by_cases hsame : other = own
      · subst hsame
        have hnot : ¬ other.1 <:+: rest := fun hrest => h other hmem (hrest.trans (List.suffix_cons '/' rest).isInfix)
        rw [List.foldl_cons, replaceText_prefix (own_ne_nil hmem), replaceText_of_not_infix hnot]
        exact hstays owns hsub
      · have hkeep : replaceText other.1 other.2 (own.1 ++ rest) = own.1 ++ rest := by
          rw [hpath, replaceText_keepsOff ((own_keepsOff hown hmem).1 hsame) (h other hmem)]
        rw [List.foldl_cons, hkeep]
        exact ih hsub ((List.mem_cons.mp hin).resolve_left fun heq => hsame heq.symm)
  exact hreplaced ownDirectories (List.Subset.refl _) hown

/-- A run that is made of as it should be. In a directory of the tool's own, what is behind it opens a
path if it has a slash, and does not end in one; elsewhere an absolute path of two or more segments
does so from its first slash on, and any other run opens no path of more than one segment. -/
def Alphabet.ReadRight (A : Alphabet) (w : Chars) : Prop :=
  match ownDirectories.find? fun own => own.1.isPrefixOf w with
  | some own =>
    let rest := w.drop own.1.length
    (∀ other ∈ ownDirectories, ¬ other.1 <:+: '/' :: rest) ∧
      ('/' ∈ rest → rest.head?.any A.isAlphanumeric = true ∧ rest.getLast? ≠ some '/')
  | none =>
    (∀ own ∈ ownDirectories, ¬ own.1 <:+: w) ∧
      if multiSegment w then w.tail.head?.any A.isAlphanumeric = true ∧ w.getLast? ≠ some '/'
      else ∀ a b, w = a ++ '/' :: b → b.head?.any A.isAlphanumeric = true → '/' ∉ b

/-- What is shown for a directory of the tool's own, before the rest. -/
theorem placeholder_eq {own : Chars × Chars} (h : own ∈ ownDirectories) : ∃ shown, own.2 = shown ++ ['/'] ∧ '/' ∉ shown := by
  have hall : ∀ own ∈ ownDirectories, own.2 = own.2.dropLast ++ ['/'] ∧ '/' ∉ own.2.dropLast := by decide
  exact ⟨own.2.dropLast, hall own h⟩

theorem multiSegment_tail {w : Chars} (h : multiSegment w = true) : ∃ t, w = '/' :: t ∧ '/' ∈ t := by
  rw [multiSegment, Bool.and_eq_true, beq_iff_eq] at h
  obtain ⟨t, rfl⟩ := List.head?_eq_some_iff.mp h.1
  obtain ⟨c, hc, hslash⟩ := List.any_eq_true.mp h.2
  obtain rfl : c = '/' := beq_iff_eq.mp hslash
  refine ⟨t, rfl, ?_⟩
  have hlead : trimMatches isSlash ('/' :: t) = trimMatches isSlash t := by
    have hsurround : trimMatches isSlash (['/'] ++ t ++ []) = trimMatches isSlash t :=
      trimMatches_surround (forall_mem_of_all (by decide)) (List.forall_mem_nil _) t
    rwa [List.append_nil] at hsurround
  rw [hlead] at hc
  obtain ⟨lead, trail, ht, -⟩ := exists_trimMatches isSlash t
  rw [ht]
  exact List.mem_append_left _ (List.mem_append_right _ hc)

/-- What is made of a run that is read right. -/
theorem scanned_replaceOwn {w : Chars} (hw : ∀ c ∈ w, A.isPathChar c = true) (h : A.ReadRight w) :
    scanned A (replaceOwn w) = hideRun w := by
  unfold Alphabet.ReadRight at h
  unfold hideRun
  cases hfind : ownDirectories.find? fun own => own.1.isPrefixOf w with
  | some own =>
    have hown := List.mem_of_find?_eq_some hfind
    have hprefix : own.1.isPrefixOf w = true := List.find?_some (p := fun own : Chars × Chars => own.1.isPrefixOf w) hfind
    obtain ⟨rest, rfl⟩ := List.isPrefixOf_iff_prefix.mp hprefix
    obtain ⟨shown, hshown, hslash⟩ := placeholder_eq hown
    rw [hfind] at h
    dsimp only at h ⊢
    rw [List.drop_left] at h ⊢
    have hrest : ∀ c ∈ rest, A.isPathChar c = true := fun c hc => hw c (List.mem_append_right _ hc)
    rw [replaceOwn_own hown h.1, hshown, List.append_assoc, List.singleton_append, scanned_plain hslash, List.dropLast_concat]
    by_cases hmore : '/' ∈ rest
    · obtain ⟨hhead, hlast⟩ := h.2 hmore
      rw [scanned_opened hrest hhead, if_pos hmore, if_pos (List.any_eq_true.mpr ⟨'/', hmore, rfl⟩), lastSegment_eq hlast]
    · have hany : ¬ rest.any isSlash = true := by
        intro hany
        obtain ⟨c, hc, hcs⟩ := List.any_eq_true.mp hany
        exact hmore ((beq_iff_eq.mp hcs) ▸ hc)
      have hsingle : scanned A ('/' :: rest) = '/' :: rest := by
        refine scanned_unchanged (List.forall_mem_cons.mpr ⟨isPathChar_slash, hrest⟩) fun a b heq _ hin => ?_
        cases a with
        | nil =>
          cases heq
          exact hmore hin
        | cons d a =>
          cases heq
          exact hmore (List.mem_append_right _ List.mem_cons_self)
      rw [hsingle, if_neg hany]
  | none =>
    rw [hfind] at h
    dsimp only at h ⊢
    rw [replaceOwn_eq_self h.1]
    cases hmulti : multiSegment w with
    | true =>
      obtain ⟨hhead, hlast⟩ : w.tail.head?.any A.isAlphanumeric = true ∧ w.getLast? ≠ some '/' := by
        rw [hmulti] at h
        exact h.2
      obtain ⟨t, rfl, ht⟩ := multiSegment_tail hmulti
      have hrun : ∀ c ∈ t, A.isPathChar c = true := fun c hc => hw c (List.mem_cons_of_mem _ hc)
      obtain ⟨a, hsplit, hbehind⟩ := exists_behindLast ht
      have hsame : behindLast ('/' :: t) = behindLast t := by
        conv_lhs => rw [hsplit, ← List.cons_append, behindLast_append hbehind]
      rw [scanned_opened hrun hhead, if_pos ht, if_pos rfl, lastSegment_eq hlast, hsame]
    | false =>
      rw [hmulti] at h
      rw [scanned_unchanged hw h.2, if_neg Bool.false_ne_true]

/-! ## A message -/

theorem replaceOwn_cons {c : Char} (hc : A.isPathChar c = false) (s : Chars) : replaceOwn (c :: s) = c :: replaceOwn s := by
  have hfold : ∀ owns : List (Chars × Chars), owns ⊆ ownDirectories → ∀ s : Chars,
      owns.foldl (fun text own => replaceText own.1 own.2 text) (c :: s) =
        c :: owns.foldl (fun text own => replaceText own.1 own.2 text) s := by
    intro owns howns
    induction owns with
    | nil => exact fun _ => rfl
    | cons own owns ih =>
      intro s
      have hmem := howns List.mem_cons_self
      rw [List.foldl_cons, replaceText_cons_of_kind (own_ne_nil hmem) (isPathChar_own hmem) hc]
      exact ih (fun _ h => howns (List.mem_cons_of_mem _ h)) _
  exact hfold ownDirectories (List.Subset.refl _) s

/-- Where every run is read right, what is made of a message is what should be shown. -/
theorem scanned_eq_hide {msg : Chars} (h : ∀ w, IsRun A.isPathChar w msg → A.ReadRight w) : scanned A (replaceOwn msg) = hide A msg := by
  induction hn : msg.length using Nat.strong_induction_on generalizing msg with
  | _ n ih =>
    subst hn
    cases msg with
    | nil =>
      rw [replaceOwn_eq_self (by decide), scanned, hide]
    | cons c s =>
      rw [hide]
      cases hc : A.isPathChar c with
      | false =>
        rw [replaceOwn_cons hc, scanned, opens_of_not_isPathChar hc, if_neg Bool.false_ne_true, if_neg Bool.false_ne_true,
          ih s.length (Nat.lt_succ_self _) (fun w hw => h w (hw.of_cons hc)) rfl]
      | true =>
        have hrun := isRun_takeWhile (s := s) hc
        have hstop := head_dropWhile (p := A.isPathChar) s
        have hsplit : c :: s = (c :: s).takeWhile A.isPathChar ++ s.dropWhile A.isPathChar := by
          rw [List.takeWhile_cons_of_pos hc, List.cons_append, List.takeWhile_append_dropWhile]
        have hshorter : (s.dropWhile A.isPathChar).length < (c :: s).length := Nat.lt_succ_of_le (List.length_dropWhile_le ..)
        have hright : ∀ w, IsRun A.isPathChar w (s.dropWhile A.isPathChar) → A.ReadRight w :=
          fun w hw => h w (by rw [hsplit]; exact hw.of_append hstop)
        have hrest := ih _ hshorter hright rfl
        rw [if_pos rfl, ← hrest, ← scanned_replaceOwn hrun.all (h _ hrun)]
        conv_lhs => rw [hsplit, replaceOwn_append hstop, scanned_append (head_replaceOwn hstop)]

theorem quiet_of_append {s t : Chars} (h : A.quiet (s ++ t) = true) : A.quiet t = true := by
  induction s with
  | nil => exact h
  | cons c s ih =>
    rw [List.cons_append, Alphabet.quiet, Bool.and_eq_true] at h
    exact ih h.2

/-- Where no path is opened, none of the tool's directories stands. -/
theorem not_infix_of_quiet {s : Chars} (h : A.quiet s = true) : ∀ own ∈ ownDirectories, ¬ own.1 <:+: s := by
  have hall : ∀ own ∈ ownDirectories, own.1.head? = some '/' ∧ own.1.tail.head?.any (fun c => c.isAlphanum && decide (c.toNat < 128)) = true := by
    decide
  rintro own hown ⟨before, behind, rfl⟩
  obtain ⟨hslash, halnum⟩ := hall own hown
  obtain ⟨rest, hrest⟩ := List.head?_eq_some_iff.mp hslash
  rw [hrest] at h halnum
  cases rest with
  | nil => cases halnum
  | cons c rest =>
    change (c.isAlphanum && decide (c.toNat < 128)) = true at halnum
    rw [Bool.and_eq_true, decide_eq_true_eq] at halnum
    rw [List.append_assoc] at h
    have hopens := quiet_of_append h
    rw [List.cons_append, List.cons_append, Alphabet.quiet, Bool.and_eq_true, Bool.not_eq_true', Alphabet.opens] at hopens
    have hany : (some c).any A.isAlphanumeric = true := (A.ascii c halnum.2).trans halnum.1
    change (('/' == '/' && (some c).any A.isAlphanumeric) = false) ∧ _ at hopens
    rw [hany] at hopens
    cases hopens.1

theorem ascii_replaceOwn {s : Chars} (h : ∀ c ∈ s, c.toNat < 128) : ∀ c ∈ replaceOwn s, c.toNat < 128 := by
  have hall : (ownDirectories.all fun own => own.2.all fun c => decide (c.toNat < 128)) = true := by decide
  have hfold : ∀ owns : List (Chars × Chars), owns ⊆ ownDirectories → ∀ s : Chars, (∀ c ∈ s, c.toNat < 128) →
      ∀ c ∈ owns.foldl (fun text own => replaceText own.1 own.2 text) s, c.toNat < 128 := by
    intro owns howns
    induction owns with
    | nil => exact fun _ hs => hs
    | cons own owns ih =>
      intro s hs
      refine ih (fun _ hm => howns (List.mem_cons_of_mem _ hm)) _ fun c hc => ?_
      have hown := List.all_eq_true.mp hall own (howns List.mem_cons_self)
      exact (mem_replaceText hc).elim (forall_mem_of_all hown c) (hs c)
  exact hfold ownDirectories (List.Subset.refl _) s h

/-- The paths end before the first character outside ASCII, and every run of path characters is read
right. -/
structure Alphabet.Readable (A : Alphabet) (msg : Chars) : Prop where
  ascii : ∃ front back, msg = front ++ back ∧ (∀ c ∈ front, c.toNat < 128) ∧ A.quiet back = true ∧
    ∀ c, back.head? = some c → A.isPathChar c = false
  runs : ∀ w, IsRun A.isPathChar w msg → A.ReadRight w

theorem sanitiseError_of_readable {msg : Chars} (h : A.Readable msg) : sanitiseError A msg = some (hide A msg) := by
  obtain ⟨⟨front, back, rfl, hascii, hback, hhead⟩, hruns⟩ := h
  have hsplit : replaceOwn (front ++ back) = replaceOwn front ++ back := by
    rw [replaceOwn_append hhead, replaceOwn_eq_self (not_infix_of_quiet hback)]
  have hloop : sanitiseFrom A ([] ++ replaceOwn front ++ back) 0 (replaceOwn front ++ back) = some (scanned A (replaceOwn front ++ back)) :=
    sanitiseFrom_eq (ascii_replaceOwn hascii) hback hhead
  rw [sanitiseError, ← scanned_eq_hide hruns, hsplit]
  exact hloop

/-! ## Nothing is left to see -/

theorem not_multiSegment {w s : Chars} (hw : w <:+: s) (h : ∀ t, s = '/' :: t → '/' ∉ t) (hs : s.head? ≠ some '/' → '/' ∉ s) :
    multiSegment w = false := by
  rw [← Bool.not_eq_true]
  intro hmulti
  obtain ⟨t, rfl, ht⟩ := multiSegment_tail hmulti
  obtain ⟨before, behind, rfl⟩ := hw
  cases before with
  | nil => exact h (t ++ behind) rfl (List.mem_append_left _ ht)
  | cons c before =>
    by_cases hc : c = '/'
    · subst hc
      exact h (before ++ '/' :: t ++ behind) rfl (List.mem_append_left _ (List.mem_append_right _ List.mem_cons_self))
    · refine hs (fun heq => hc (Option.some.inj heq)) ?_
      exact List.mem_append_left _ (List.mem_append_right _ List.mem_cons_self)

theorem IsRun.within {p : Char → Bool} {w s : Chars} (h : IsRun p w s) : w <:+: s := by
  obtain ⟨-, -, before, behind, rfl, -, -⟩ := h
  exact ⟨before, behind, rfl⟩

theorem multiSegment_of_not_mem {w s : Chars} (hw : w <:+: s) (h : '/' ∉ s) : multiSegment w = false :=
  not_multiSegment hw (fun _ heq => absurd (heq ▸ List.mem_cons_self) h) fun _ => h

/-- A run of a text that is one run is the whole text. -/
theorem eq_of_isRun {p : Char → Bool} {w s : Chars} (hs : ∀ c ∈ s, p c = true) (h : IsRun p w s) : w = s := by
  obtain ⟨-, -, before, behind, rfl, hbefore, hbehind⟩ := h
  have hnil : before = [] := by
    rcases List.eq_nil_or_concat before with rfl | ⟨rest, c, rfl⟩
    · rfl
    · have hc := hs c (by simp)
      rw [hbefore c (by simp)] at hc
      cases hc
  have hnil' : behind = [] := by
    cases behind with
    | nil => rfl
    | cons c behind =>
      have hc := hs c (by simp)
      rw [hbehind c rfl] at hc
      cases hc
  rw [hnil, hnil', List.nil_append, List.append_nil]

theorem slash_not_mem_lastSegment (w : Chars) : '/' ∉ lastSegment w := by
  intro hmem
  have hp := List.mem_takeWhile_imp (List.mem_reverse.mp hmem)
  exact absurd hp (by decide)

/-- What is shown for a run is no path of two segments, and holds none. -/
theorem multiSegment_hideRun {w x : Chars} (hw : ∀ c ∈ w, A.isPathChar c = true) (hx : IsRun A.isPathChar x (hideRun w)) :
    multiSegment x = false := by
  unfold hideRun at hx
  cases hfind : ownDirectories.find? fun own => own.1.isPrefixOf w with
  | some own =>
    rw [hfind] at hx
    dsimp only at hx
    have hown := List.mem_of_find?_eq_some hfind
    have hall : ∀ own ∈ ownDirectories, own.2.dropLast = own.2.dropLast.dropLast ++ [']'] ∧ '/' ∉ own.2.dropLast := by decide
    obtain ⟨hclosed, hslash⟩ := hall own hown
    have hbracket : A.isPathChar ']' = false := by
      rw [Alphabet.isPathChar, A.ascii ']' (by decide)]
      decide
    -- Behind the placeholder stands the rest, whose runs are runs of their own.
    have hrun {s : Chars} (hin : IsRun A.isPathChar x (own.2.dropLast ++ s)) :
        multiSegment x = false ∨ IsRun A.isPathChar x s := by
      rw [hclosed, List.append_assoc, List.singleton_append] at hin
      obtain hin | hin := hin.split (fun c hc => by cases hc; exact hbracket)
      · refine .inl (multiSegment_of_not_mem (IsRun.within hin) fun hmem => hslash ?_)
        rw [hclosed]
        exact List.mem_append_left _ hmem
      · exact .inr (hin.tail hbracket)
    split at hx
    · exact (hrun hx).elim id fun hin => multiSegment_of_not_mem (IsRun.within hin) (slash_not_mem_lastSegment _)
    · next hany =>
      rw [(own_split hown _).2] at hx
      refine (hrun hx).elim id fun hin => not_multiSegment (IsRun.within hin) (fun t heq hmem => hany ?_) fun hne => absurd rfl hne
      cases heq
      exact List.any_eq_true.mpr ⟨'/', hmem, rfl⟩
  | none =>
    rw [hfind] at hx
    dsimp only at hx
    split at hx
    · exact multiSegment_of_not_mem (IsRun.within hx) (slash_not_mem_lastSegment w)
    · next hmulti =>
      rw [eq_of_isRun hw hx]
      exact Bool.eq_false_iff.mpr hmulti

theorem head_hide {s : Chars} (h : ∀ c, s.head? = some c → A.isPathChar c = false) :
    ∀ c, (hide A s).head? = some c → A.isPathChar c = false := by
  cases s with
  | nil =>
    rw [hide]
    nofun
  | cons d s =>
    have hd := h d rfl
    rw [hide, hd, if_neg Bool.false_ne_true]
    exact h

/-- What should be shown holds no absolute path of two segments. -/
theorem multiSegment_hide {msg x : Chars} (hx : IsRun A.isPathChar x (hide A msg)) : multiSegment x = false := by
  induction hn : msg.length using Nat.strong_induction_on generalizing msg with
  | _ n ih =>
    subst hn
    cases msg with
    | nil =>
      rw [hide] at hx
      obtain ⟨hne, -, before, behind, hs, -⟩ := hx
      cases before with
      | nil =>
        rw [List.nil_append] at hs
        exact absurd (List.append_eq_nil_iff.mp hs.symm).1 hne
      | cons c before => cases hs
    | cons c s =>
      rw [hide] at hx
      cases hc : A.isPathChar c with
      | false =>
        rw [hc, if_neg Bool.false_ne_true] at hx
        exact ih s.length (Nat.lt_succ_self _) (hx.tail hc) rfl
      | true =>
        rw [hc, if_pos rfl] at hx
        obtain hx | hx := hx.split (head_hide (head_dropWhile s))
        · exact multiSegment_hideRun (isRun_takeWhile hc).all hx
        · exact ih _ (Nat.lt_succ_of_le (List.length_dropWhile_le ..)) hx rfl

/-- The message is shown, with every path hidden and nothing else changed. -/
structure Sanitised (A : Alphabet) (msg : Chars) : Prop where
  shown : sanitiseError A msg = some (hide A msg)
  hidden : ∀ w, IsRun A.isPathChar w (hide A msg) → multiSegment w = false

/-- The letters and digits of ASCII. -/
def asciiAlphabet : Alphabet := ⟨Char.isAlphanum, fun _ _ => rfl⟩

theorem readRight_word {w : Chars} (hown : ∀ own ∈ ownDirectories, ¬ own.1 <:+: w) (h : '/' ∉ w) : A.ReadRight w := by
  have hnone : (ownDirectories.find? fun own => own.1.isPrefixOf w) = none := by
    rw [List.find?_eq_none]
    intro own hmem hprefix
    exact hown own hmem (List.isPrefixOf_iff_prefix.mp hprefix).isInfix
  unfold Alphabet.ReadRight
  rw [hnone]
  refine ⟨hown, ?_⟩
  rw [multiSegment_of_not_mem (List.infix_refl w) h, if_neg Bool.false_ne_true]
  intro a b heq
  exact absurd (heq ▸ List.mem_append_right _ List.mem_cons_self) h

/-- An arrow, a blank and a path. -/
def arrowed : Chars := ['→', ' ', '/', 'e', 't', 'c']

end LinuxHardener.Desktop.SanitiseError
