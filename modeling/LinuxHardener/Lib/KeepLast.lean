import Mathlib.Data.List.Sort
import Mathlib.Data.List.Nodup
import Mathlib.Tactic.Common

/-
  All but the last of a list, in the order of its members.

  What is proved:
    1. `mem_surplus_iff` — a member goes where enough others stand behind it.
    2. `keeps_iff` — when the ones that go are marked members, each of them older than every
       marked one that stays, and as many marked ones stay as there should.
-/
namespace LinuxHardener.KeepLast

variable {α : Type} [LinearOrder α] {keep : Nat} {l : List α} {a b : α}

/-- All but the last ones, in ascending order. -/
def surplus (keep : Nat) (l : List α) : List α := (l.insertionSort (· ≤ ·)).take (l.length - keep)

/-- How many members stand behind one. -/
def behind (l : List α) (a : α) : Nat := (l.filter fun b => a < b).length

theorem behind_perm {m : List α} (h : l.Perm m) : behind l a = behind m a := (h.filter _).length_eq

theorem behind_le_length : behind l a ≤ l.length := List.length_filter_le ..

theorem behind_anti (h : a ≤ b) : behind l b ≤ behind l a := by
  apply List.Sublist.length_le
  apply List.monotone_filter_right
  intro c hc
  rw [decide_eq_true_eq] at hc ⊢
  exact lt_of_le_of_lt h hc

/-- Of a list in strictly ascending order, by recursion over it. -/
theorem mem_take_ascending (h : l.Pairwise (· < ·)) : a ∈ l.take (l.length - keep) ↔ a ∈ l ∧ keep ≤ behind l a := by
  induction l with
  | nil => simp
  | cons c l ih =>
    obtain ⟨hfirst, hrest⟩ := List.pairwise_cons.mp h
    have hall : behind (c :: l) c = l.length := by
      rw [behind, List.filter_cons, if_neg (by simp), List.filter_eq_self.mpr (by simpa using hfirst)]
    have hlater {d : α} (hd : d ∈ l) : behind (c :: l) d = behind l d := by
      rw [behind, List.filter_cons, if_neg (by simpa using (hfirst d hd).le)]
      rfl
    by_cases hkeep : keep ≤ l.length
    · rw [List.length_cons, Nat.succ_sub hkeep, List.take_succ_cons, List.mem_cons, ih hrest, List.mem_cons]
      constructor
      · rintro (rfl | ⟨hmem, hbehind⟩)
        · exact ⟨.inl rfl, hall ▸ hkeep⟩
        · exact ⟨.inr hmem, (hlater hmem).symm ▸ hbehind⟩
      · rintro ⟨rfl | hmem, hbehind⟩
        · exact .inl rfl
        · exact .inr ⟨hmem, hlater hmem ▸ hbehind⟩
    · have hzero : (c :: l).length - keep = 0 := by
        rw [List.length_cons]
        omega
      rw [hzero, List.take_zero]
      refine iff_of_false (List.not_mem_nil) ?_
      rintro ⟨hmem, hbehind⟩
      rcases List.mem_cons.mp hmem with rfl | hmem
      · rw [hall] at hbehind
        exact hkeep hbehind
      · rw [hlater hmem] at hbehind
        exact hkeep (hbehind.trans behind_le_length)

theorem mem_surplus_iff (hn : l.Nodup) : a ∈ surplus keep l ↔ a ∈ l ∧ keep ≤ behind l a := by
  have hperm := List.perm_insertionSort (· ≤ ·) l
  have hascending : (l.insertionSort (· ≤ ·)).Pairwise (· < ·) := by
    have hsorted : (l.insertionSort (· ≤ ·)).Pairwise (· ≤ ·) := List.pairwise_insertionSort _ l
    exact (hsorted.and (hperm.nodup_iff.mpr hn)).imp fun h => lt_of_le_of_ne h.1 h.2
  have hmem : a ∈ (l.insertionSort (· ≤ ·)).take ((l.insertionSort (· ≤ ·)).length - keep) ↔
      a ∈ l.insertionSort (· ≤ ·) ∧ keep ≤ behind (l.insertionSort (· ≤ ·)) a := mem_take_ascending hascending
  rw [hperm.length_eq, hperm.mem_iff, behind_perm hperm] at hmem
  exact hmem

theorem length_surplus : (surplus keep l).length = l.length - keep := by
  rw [surplus, List.length_take, (List.perm_insertionSort _ l).length_eq, Nat.min_eq_left (Nat.sub_le ..)]

theorem nodup_surplus (hn : l.Nodup) : (surplus keep l).Nodup :=
  ((List.perm_insertionSort _ l).nodup_iff.mpr hn).sublist (List.take_sublist ..)

theorem surplus_subset : surplus keep l ⊆ l := fun _ h => (List.mem_insertionSort _).mp (List.mem_of_mem_take h)

/-- What stays. -/
def kept (keep : Nat) (l : List α) : List α := l.filter fun a => a ∉ surplus keep l

theorem mem_kept : a ∈ kept keep l ↔ a ∈ l ∧ a ∉ surplus keep l := by
  rw [kept, List.mem_filter, decide_eq_true_eq]

/-- Where only marked members go, as many of them stay as there are, less those that go. -/
theorem length_kept_marked (hn : l.Nodup) {p : α → Bool} (h : ∀ a ∈ surplus keep l, p a = true) :
    ((kept keep l).filter p).length + (l.length - keep) = (l.filter p).length := by
  have hgone : (l.filter fun a => decide (a ∈ surplus keep l) && p a).length = l.length - keep := by
    rw [← length_surplus]
    apply List.Perm.length_eq
    rw [List.perm_ext_iff_of_nodup (hn.filter _) (nodup_surplus hn)]
    intro a
    rw [List.mem_filter, Bool.and_eq_true, decide_eq_true_eq]
    exact ⟨fun ha => ha.2.1, fun ha => ⟨surplus_subset ha, ha, h a ha⟩⟩
  have hsplit := List.length_eq_length_filter_add (l := l.filter p) fun a => decide (a ∈ surplus keep l)
  have hstays : ((l.filter p).filter fun a => !decide (a ∈ surplus keep l)) = (kept keep l).filter p := by
    rw [kept, List.filter_filter, List.filter_filter]
    apply List.filter_congr
    intro a _
    rw [decide_not, Bool.and_comm]
  rw [hstays, List.filter_filter, hgone] at hsplit
  rw [hsplit, Nat.add_comm]

theorem keeps_iff (hn : l.Nodup) {p : α → Bool} {older : α → α → Prop} :
    ((∀ a ∈ l, p a = false → a ∈ kept keep l) ∧ (∀ a ∈ l, a ∉ kept keep l → ∀ b ∈ kept keep l, older a b) ∧
        ((kept keep l).filter p).length = min keep (l.filter p).length) ↔
      l.length ≤ keep ∨ (∀ a ∈ l, p a = true) ∧ ∀ a ∈ l, ∀ b ∈ l, keep ≤ behind l a → behind l b < keep → older a b := by
  have hgoes : ∀ a ∈ l, a ∉ kept keep l → a ∈ surplus keep l := fun a ha hnot => by_contra fun h => hnot (mem_kept.mpr ⟨ha, h⟩)
  have hmarks : (l.filter p).length ≤ l.length := List.length_filter_le ..
  constructor
  · rintro ⟨hothers, holder, hcount⟩
    by_cases hfew : l.length ≤ keep
    · exact .inl hfew
    have hmarked : ∀ a ∈ surplus keep l, p a = true := by
      intro a ha
      by_contra hnot
      exact (mem_kept.mp (hothers a (surplus_subset ha) (Bool.eq_false_iff.mpr hnot))).2 ha
    have hlength := length_kept_marked hn hmarked
    have hall : (l.filter p).length = l.length := by
      rw [hcount] at hlength
      omega
    refine .inr ⟨List.length_filter_eq_length_iff.mp hall, fun a ha b hb hbehind hfront => ?_⟩
    refine holder a ha (fun hkept => (mem_kept.mp hkept).2 ((mem_surplus_iff hn).mpr ⟨ha, hbehind⟩)) b ?_
    exact mem_kept.mpr ⟨hb, fun hsurplus => Nat.not_le.mpr hfront ((mem_surplus_iff hn).mp hsurplus).2⟩
  · rintro (hfew | ⟨hmarked, holder⟩)
    · have hnone : surplus keep l = [] := by
        rw [← List.length_eq_zero_iff, length_surplus]
        omega
      have hkept : kept keep l = l := by simp [kept, hnone]
      rw [hkept]
      refine ⟨fun a ha _ => ha, fun a ha hnot => absurd ha hnot, ?_⟩
      exact (Nat.min_eq_right (hmarks.trans hfew)).symm
    · refine ⟨fun a ha hnot => absurd (hmarked a ha) (by rw [hnot]; nofun), fun a ha hnot b hb => ?_, ?_⟩
      · have hsurplus := (mem_surplus_iff hn).mp (hgoes a ha hnot)
        obtain ⟨hmem, hstays⟩ := mem_kept.mp hb
        refine holder a ha b hmem hsurplus.2 (Nat.lt_of_not_le fun hle => ?_)
        exact hstays ((mem_surplus_iff hn).mpr ⟨hmem, hle⟩)
      · have hgone : ∀ a ∈ surplus keep l, p a = true := fun a ha => hmarked a (surplus_subset ha)
        have hlength := length_kept_marked hn hgone
        have hall := List.length_filter_eq_length_iff.mpr hmarked
        omega

end LinuxHardener.KeepLast
