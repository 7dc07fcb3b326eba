import Mathlib.Data.List.Basic
import Mathlib.Tactic.Common

/-
  Texts as `str` handles them: Unicode white space and trimming.
-/
namespace LinuxHardener

/-- What a check finds of every entry of a given list holds of them all. -/
theorem forall_mem_of_all {α : Type*} {p : α → Prop} [DecidablePred p] {l : List α} (h : (l.all fun a => decide (p a)) = true) :
    ∀ a ∈ l, p a := by
  intro a ha
  exact of_decide_eq_true (List.all_eq_true.mp h a ha)

end LinuxHardener

namespace LinuxHardener.Text

/-- The Unicode property `White_Space`. -/
def isWhitespace (c : Char) : Bool :=
  let n := c.toNat
  (9 ≤ n && n ≤ 13) || n == 0x20 || n == 0x85 || n == 0xA0 || n == 0x1680 || (0x2000 ≤ n && n ≤ 0x200A) ||
    n == 0x2028 || n == 0x2029 || n == 0x202F || n == 0x205F || n == 0x3000

def trimStart (cs : List Char) : List Char := cs.dropWhile isWhitespace

def trimEnd (cs : List Char) : List Char := (cs.reverse.dropWhile isWhitespace).reverse

/-- `str::trim` -/
def trim (s : String) : String := String.ofList (trimEnd (trimStart s.toList))

end LinuxHardener.Text
