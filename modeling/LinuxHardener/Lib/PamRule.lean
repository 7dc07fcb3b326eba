import LinuxHardener.Lib.Cut
import Mathlib.Data.Option.Basic

/-
  The rules of a PAM stack, as `pam.conf(5)` gives their grammar.

  A rule is a line of fields between blanks: its type, its control field, the path of its
  module, then arguments. What stands behind a `#` is no part of it. The control field and
  the arguments may stand in brackets, where `\]` is a bracket of the text. The control
  words `include` and `substack` take another stack's name in place of a module's.

  What is proved:
    1. `infix_of_names` — a module that a rule names stands in the rule's line.
    2. `exists_visible_of_readRule` — something other than white space stands before the
       comment of a line with a rule.
-/
namespace LinuxHardener.PamRule

open Text (isWhitespace)
open LineText

def isBlank (c : Char) : Bool := c == ' ' || c == '\t' || c == '\n'

def stripComment (line : Chars) : Chars := line.takeWhile (· != '#')

/-- The next word, and what stands behind it. -/
def readWord (s : Chars) : Option (Chars × Chars) :=
  let s := s.dropWhile isBlank
  if s = [] then none else some (s.takeWhile fun c => !isBlank c, s.dropWhile fun c => !isBlank c)

/-- A field from behind its `[`. -/
def readBracket : Chars → Chars × Chars
  | [] => ([], [])
  | '\\' :: ']' :: cs => ((']' :: (readBracket cs).1), (readBracket cs).2)
  | c :: cs => if c = ']' then ([], cs) else (c :: (readBracket cs).1, (readBracket cs).2)

/-- The next field, in brackets or not. -/
def readField (s : Chars) : Option (Chars × Chars) :=
  match s.dropWhile isBlank with
  | '[' :: cs => some (readBracket cs)
  | _ => readWord s

/-- What the field read so far is. -/
inductive Reading
  | between
  | word (begun : Chars)
  | bracket (begun : Chars)

/-- All fields that are left. -/
def fieldsFrom : Reading → Chars → List Chars
  | .between, [] => []
  | .word begun, [] => [begun]
  | .bracket begun, [] => [begun]
  | .between, c :: cs =>
    if isBlank c then fieldsFrom .between cs
    else if c = '[' then fieldsFrom (.bracket []) cs
    else fieldsFrom (.word [c]) cs
  | .word begun, c :: cs =>
    if isBlank c then begun :: fieldsFrom .between cs else fieldsFrom (.word (begun ++ [c])) cs
  | .bracket begun, '\\' :: ']' :: cs => fieldsFrom (.bracket (begun ++ [']'])) cs
  | .bracket begun, c :: cs =>
    if c = ']' then begun :: fieldsFrom .between cs else fieldsFrom (.bracket (begun ++ [c])) cs

structure Rule where
  type : Chars
  control : Chars
  path : Chars
  arguments : List Chars
  deriving DecidableEq, Repr

/-- A management group; a `-` before it keeps quiet about a module that is not there. -/
def isType (field : Chars) : Bool :=
  let group := (stripStart ['-'] field).getD field
  ["account".toList, "auth".toList, "password".toList, "session".toList].any fun known => eqIgnoreCase group known

/-- The control words that name another stack. -/
def isInclude (control : Chars) : Bool := eqIgnoreCase control "include".toList || eqIgnoreCase control "substack".toList

/-- The rule on a line. -/
def readRule (line : Chars) : Option Rule := do
  let (type, rest) ← readWord (stripComment line)
  guard (isType type)
  let (control, rest) ← readField rest
  guard !isInclude control
  let (path, rest) ← readWord rest
  return ⟨type, control, path, fieldsFrom .between rest⟩

/-- The module is named, alone or behind a directory. -/
def Rule.names (rule : Rule) (module : Chars) : Bool := rule.path == module || ('/' :: module).isSuffixOf rule.path

/-- The value of the first argument `key=value`. -/
def Rule.argument (rule : Rule) (key : Chars) : Option Chars := rule.arguments.findSome? (stripStart (key ++ ['=']))

/-! ## What a rule's line holds -/

variable {line s word rest module : Chars} {rule : Rule}

theorem readWord_eq (h : readWord s = some (word, rest)) : ∃ blanks, s = blanks ++ (word ++ rest) := by
  unfold readWord at h
  dsimp only at h
  split at h
  · cases h
  · cases Option.some.inj h
    exact ⟨s.takeWhile isBlank, by rw [List.takeWhile_append_dropWhile, List.takeWhile_append_dropWhile]⟩

theorem readBracket_suffix (s : Chars) : (readBracket s).2 <:+ s := by
  fun_induction readBracket s with
  | case1 => exact List.suffix_rfl
  | case2 cs ih => exact ih.trans ((List.suffix_cons ..).trans (List.suffix_cons ..))
  | case3 cs => exact List.suffix_cons ..
  | case4 c cs _ hc ih => exact ih.trans (List.suffix_cons ..)

theorem readField_suffix (h : readField s = some (word, rest)) : rest <:+ s := by
  unfold readField at h
  split at h
  · next cs hs =>
    have hrest : (readBracket cs).2 = rest := congrArg Prod.snd (Option.some.inj h)
    have hcs : cs <:+ s.dropWhile isBlank := by
      rw [hs]
      exact List.suffix_cons ..
    exact hrest ▸ (readBracket_suffix cs).trans (hcs.trans (List.dropWhile_suffix _))
  · obtain ⟨blanks, he⟩ := readWord_eq h
    rw [he, ← List.append_assoc]
    exact List.suffix_append ..

/-- The fields of a rule, in their places. -/
theorem readRule_eq (h : readRule line = some rule) : ∃ behindType behindControl behindPath,
    readWord (stripComment line) = some (rule.type, behindType) ∧ isType rule.type = true ∧
      readField behindType = some (rule.control, behindControl) ∧ isInclude rule.control = false ∧
      readWord behindControl = some (rule.path, behindPath) ∧ rule.arguments = fieldsFrom .between behindPath := by
  unfold readRule at h
  simp only [Option.bind_eq_bind, Option.bind_eq_some_iff, Prod.exists, Option.guard_eq_some', Option.pure_def] at h
  obtain ⟨type, behindType, htype, _, hgroup, control, behindControl, hcontrol, _, hinclude, path, behindPath, hpath, hrule⟩ := h
  cases Option.some.inj hrule
  exact ⟨behindType, behindControl, behindPath, htype, hgroup, hcontrol, by simpa using hinclude, hpath, rfl⟩

theorem infix_path (h : readRule line = some rule) : rule.path <:+: line := by
  obtain ⟨behindType, behindControl, behindPath, htype, _, hcontrol, _, hpath, _⟩ := readRule_eq h
  have hline : stripComment line <:+: line := (List.takeWhile_prefix _).isInfix
  obtain ⟨_, he⟩ := readWord_eq htype
  have hbehind : behindType <:+: stripComment line := by
    rw [he, ← List.append_assoc]
    exact (List.suffix_append ..).isInfix
  obtain ⟨blanks, he⟩ := readWord_eq hpath
  have hword : rule.path <:+: behindControl := ⟨blanks, behindPath, by rw [he, List.append_assoc]⟩
  exact hword.trans ((readField_suffix hcontrol).isInfix.trans (hbehind.trans hline))

theorem infix_of_names (h : readRule line = some rule) (hn : rule.names module = true) : module <:+: line := by
  refine List.IsInfix.trans ?_ (infix_path h)
  cases Bool.or_eq_true _ _ |>.mp hn with
  | inl he => exact (eq_of_beq he) ▸ List.infix_rfl
  | inr hs => exact ((List.suffix_cons ..).trans (List.isSuffixOf_iff_suffix.mp hs)).isInfix

/-- No white space is a capital. -/
theorem toLower_of_isWhitespace {c : Char} (h : isWhitespace c = true) : c.toLower = c := by
  have hn : ¬ (c.val ≥ 'A'.val ∧ c.val ≤ 'Z'.val) := by
    rintro ⟨hlow, hhigh⟩
    have hlow : 65 ≤ c.toNat := hlow
    have hhigh : c.toNat ≤ 90 := hhigh
    simp [isWhitespace] at h
    omega
  unfold Char.toLower
  rw [dif_neg hn]

theorem eq_of_eqIgnoreCase {known : Chars} (h : ∀ c ∈ s, isWhitespace c = true) (he : eqIgnoreCase s known = true) :
    s = known.map Char.toLower := by
  rw [← eq_of_beq he]
  exact (List.map_id' s ▸ List.map_congr_left fun c hc => toLower_of_isWhitespace (h c hc)).symm

/-- A type is not all white space. -/
theorem exists_visible_of_isType (h : isType s = true) : ∃ c ∈ s, isWhitespace c = false := by
  by_contra hno
  have hall : ∀ c ∈ s, isWhitespace c = true := fun c hc => by
    by_contra hc'
    exact hno ⟨c, hc, eq_false_of_ne_true hc'⟩
  have hplain : (stripStart ['-'] s).getD s = s := by
    cases hs : stripStart ['-'] s with
    | none => rfl
    | some group =>
      unfold stripStart at hs
      split at hs
      · next hdash =>
        have hmem : '-' ∈ s := (List.isPrefixOf_iff_prefix.mp hdash).subset (List.mem_singleton_self _)
        exact absurd (hall '-' hmem) (by decide)
      · cases hs
  unfold isType at h
  rw [hplain] at h
  obtain ⟨known, hknown, he⟩ := List.any_eq_true.mp h
  have hs := eq_of_eqIgnoreCase hall he
  have hgroups : ∀ known ∈ ["account".toList, "auth".toList, "password".toList, "session".toList],
      ((known.map Char.toLower).any fun c => !isWhitespace c) = true := by decide
  obtain ⟨c, hc, hvisible⟩ := List.any_eq_true.mp (hgroups known hknown)
  rw [hall c (hs ▸ hc)] at hvisible
  cases hvisible

theorem exists_visible_of_readRule (h : readRule line = some rule) : ∃ c ∈ stripComment line, isWhitespace c = false := by
  obtain ⟨behindType, _, _, htype, hgroup, _⟩ := readRule_eq h
  obtain ⟨c, hc, hvisible⟩ := exists_visible_of_isType hgroup
  obtain ⟨blanks, he⟩ := readWord_eq htype
  refine ⟨c, ?_, hvisible⟩
  rw [he]
  exact List.mem_append_right _ (List.mem_append_left _ hc)

end LinuxHardener.PamRule
