import Mathlib.Data.List.Sort
import Mathlib.Tactic.Common

/-
  The word spelled by a sorted list whose order leaves ties.

  A list sorted by a key with ties can be arranged in several ways. What is
  proved:
    1. `flatMap_eq_of_perm` — if the words of tied elements commute, every sorted
       arrangement spells one word.
    2. `commute_of_flatMap_eq` — and only then.
-/
namespace LinuxHardener.SortedWords

section

variable {α β : Type*} (r : α → α → Prop) (enc : α → List β)

/-- Tied elements of the list spell the same word in either order. -/
def TiesCommute (l : List α) : Prop :=
  ∀ x ∈ l, ∀ y ∈ l, r x y → r y x → enc x ++ enc y = enc y ++ enc x

variable {r enc}

theorem TiesCommute.subset {l l' : List α} (h : TiesCommute r enc l) (hs : l' ⊆ l) :
    TiesCommute r enc l' :=
  fun x hx y hy => h x (hs hx) y (hs hy)

/-- A word that commutes with every piece commutes with the whole. -/
theorem append_flatMap_comm (x : α) (l : List α) (h : ∀ y ∈ l, enc x ++ enc y = enc y ++ enc x) :
    enc x ++ l.flatMap enc = l.flatMap enc ++ enc x := by
  induction l with
  | nil => simp
  | cons y l ih =>
    have hy := h y (by simp)
    have hl := ih (fun z hz => h z (by simp [hz]))
    calc enc x ++ (y :: l).flatMap enc
        = (enc x ++ enc y) ++ l.flatMap enc := by simp
      _ = enc y ++ (enc x ++ l.flatMap enc) := by rw [hy, List.append_assoc]
      _ = (y :: l).flatMap enc ++ enc x := by rw [hl]; simp

/-- Sorted arrangements of one list spell one word when ties commute. -/
theorem flatMap_eq_of_perm : ∀ {l l' : List α}, l.Perm l' → l.Pairwise r → l'.Pairwise r →
    TiesCommute r enc l → l.flatMap enc = l'.flatMap enc := by
  intro l
  induction l with
  | nil =>
    intro l' hp _ _ _
    rw [List.nil_perm.mp hp]
  | cons x l ih =>
    intro l' hp hs hs' hc
    obtain ⟨a, b, hab⟩ := List.append_of_mem (hp.subset (List.mem_cons_self))
    subst hab
    have hperm : l.Perm (a ++ b) := List.Perm.cons_inv (hp.trans List.perm_middle)
    -- what stands before `x` in the other arrangement is tied with it
    have htie : ∀ y ∈ a, enc x ++ enc y = enc y ++ enc x := by
      intro y hy
      have hyl : y ∈ l := hperm.symm.subset (by simp [hy])
      have hxy : r x y := List.rel_of_pairwise_cons hs hyl
      have hyx : r y x := (List.pairwise_append.mp hs').2.2 y hy x (by simp)
      exact hc x (by simp) y (by simp [hyl]) hxy hyx
    have hrest : (a ++ b).Pairwise r := by
      refine hs'.sublist ?_
      exact List.Sublist.append_left (List.sublist_cons_self x b) a
    have htail := ih hperm hs.of_cons hrest (hc.subset (by simp))
    calc (x :: l).flatMap enc
        = enc x ++ (a ++ b).flatMap enc := by rw [List.flatMap_cons, htail]
      _ = (enc x ++ a.flatMap enc) ++ b.flatMap enc := by simp
      _ = (a ++ x :: b).flatMap enc := by rw [append_flatMap_comm x a htie]; simp

variable [IsTrans α r]

/-- A sorted list with two tied elements between what is below and what is not. -/
theorem pairwise_middle {a b : List α} {x y : α} (ha : a.Pairwise r) (hb : b.Pairwise r)
    (hax : ∀ z ∈ a, r z x) (hxb : ∀ z ∈ b, r x z) (hxy : r x y) (hyx : r y x) :
    (a ++ x :: y :: b).Pairwise r := by
  have hyb : ∀ z ∈ b, r y z := fun z hz => IsTrans.trans _ _ _ hyx (hxb z hz)
  have hay : ∀ z ∈ a, r z y := fun z hz => IsTrans.trans _ _ _ (hax z hz) hxy
  refine List.pairwise_append.mpr ⟨ha, ?_, ?_⟩
  · simp only [List.pairwise_cons, List.mem_cons]
    exact ⟨fun z hz => hz.elim (fun h => h ▸ hxy) (hxb z), hyb, hb⟩
  · intro z hz w hw
    simp only [List.mem_cons] at hw
    rcases hw with rfl | rfl | hw
    · exact hax z hz
    · exact hay z hz
    · exact IsTrans.trans _ _ _ (hax z hz) (hxb w hw)

variable [DecidableRel r] [Std.Total r]

/-- Two tied elements can stand side by side, in either order, in a sorted arrangement. -/
theorem exists_sorted_adjacent {l rest : List α} {x y : α} (hp : l.Perm (x :: y :: rest))
    (hxy : r x y) (hyx : r y x) :
    ∃ a b, l.Perm (a ++ x :: y :: b) ∧ l.Perm (a ++ y :: x :: b) ∧
      (a ++ x :: y :: b).Pairwise r ∧ (a ++ y :: x :: b).Pairwise r := by
  let s := rest.insertionSort r
  have hs : s.Pairwise r := List.pairwise_insertionSort r rest
  let a := s.filter (fun z => ! decide (r x z))
  let b := s.filter (fun z => ! ! decide (r x z))
  have hab : (a ++ b).Perm rest :=
    (List.filter_append_perm _ s).trans (List.perm_insertionSort r rest)
  have hax : ∀ z ∈ a, r z x := by
    intro z hz
    have hnot : ¬ r x z := by simpa [a] using (List.mem_filter.mp hz).2
    exact (Std.Total.total z x).resolve_right hnot
  have hxb : ∀ z ∈ b, r x z := fun z hz => by simpa [b] using (List.mem_filter.mp hz).2
  have hsa : a.Pairwise r := hs.filter _
  have hsb : b.Pairwise r := hs.filter _
  have hperm : l.Perm (a ++ x :: y :: b) := by
    refine hp.trans ?_
    have hmid : (a ++ x :: y :: b).Perm (x :: y :: (a ++ b)) :=
      List.perm_middle.trans (List.Perm.cons x List.perm_middle)
    exact ((hab.symm.cons y).cons x).trans hmid.symm
  refine ⟨a, b, hperm, hperm.trans ?_, ?_, ?_⟩
  · exact List.Perm.append_left a (List.Perm.swap y x b)
  · exact pairwise_middle hsa hsb hax hxb hxy hyx
  · refine pairwise_middle hsa hsb (fun z hz => ?_) (fun z hz => ?_) hyx hxy
    · exact IsTrans.trans _ _ _ (hax z hz) hxy
    · exact IsTrans.trans _ _ _ hyx (hxb z hz)

/-- If every sorted arrangement spells one word, ties commute. -/
theorem commute_of_flatMap_eq {l : List α}
    (h : ∀ l₁ l₂, l.Perm l₁ → l.Perm l₂ → l₁.Pairwise r → l₂.Pairwise r → l₁.flatMap enc = l₂.flatMap enc) :
    TiesCommute r enc l := by
  classical
  intro x hx y hy hxy hyx
  by_cases he : x = y
  · rw [he]
  · have hy' : y ∈ l.erase x := (List.mem_erase_of_ne (Ne.symm he)).mpr hy
    have hp : l.Perm (x :: y :: (l.erase x).erase y) :=
      (List.perm_cons_erase hx).trans ((List.perm_cons_erase hy').cons x)
    obtain ⟨a, b, hp₁, hp₂, hs₁, hs₂⟩ := exists_sorted_adjacent hp hxy hyx
    have hword := h _ _ hp₁ hp₂ hs₁ hs₂
    simp only [List.flatMap_append, List.flatMap_cons] at hword
    have hword' := List.append_cancel_left hword
    rw [← List.append_assoc, ← List.append_assoc] at hword'
    exact List.append_cancel_right hword'

end

end LinuxHardener.SortedWords
