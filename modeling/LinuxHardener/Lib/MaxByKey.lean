import Mathlib.Data.List.MinMax
import Mathlib.Data.List.Perm.Basic

/-
  The element of a list with the greatest key, the last one where several have it.

  What is proved: `maxByKey_perm_iff` — the choice does not depend on the order of the
  list exactly where no two elements share the greatest key.
-/
namespace LinuxHardener

section

variable {α κ : Type} [DecidableEq α] [LinearOrder κ] {key : α → κ} {l l' : List α} {a b : α}

/-- `Iterator::max_by_key`: of several greatest elements, the last one. -/
def maxByKey (key : α → κ) (l : List α) : Option α := l.reverse.argmax key

/-- No element of the list has a greater key. -/
def IsGreatest (key : α → κ) (l : List α) (a : α) : Prop := a ∈ l ∧ ∀ b ∈ l, key b ≤ key a

theorem IsGreatest.perm (hp : l.Perm l') (h : IsGreatest key l a) : IsGreatest key l' a :=
  ⟨hp.mem_iff.mp h.1, fun b hb => h.2 b (hp.mem_iff.mpr hb)⟩

theorem isGreatest_of_maxByKey (h : maxByKey key l = some a) : IsGreatest key l a := by
  have hm := List.mem_argmax_iff.mp h
  exact ⟨List.mem_reverse.mp hm.1, fun b hb => hm.2.1 b (List.mem_reverse.mpr hb)⟩

theorem maxByKey_eq_none : maxByKey key l = none ↔ l = [] := by
  unfold maxByKey
  rw [List.argmax_eq_none, List.reverse_eq_nil_iff]

/-- Some element is chosen where there is one, and its key is the greatest. -/
theorem exists_maxByKey (key : α → κ) (ha : a ∈ l) : ∃ b, maxByKey key l = some b ∧ IsGreatest key l b := by
  cases h : maxByKey key l with
  | none => exact absurd ha (maxByKey_eq_none.mp h ▸ List.not_mem_nil)
  | some b => exact ⟨b, rfl, isGreatest_of_maxByKey h⟩

theorem isSome_maxByKey_perm (hp : l.Perm l') : (maxByKey key l).isSome = (maxByKey key l').isSome := by
  cases h : maxByKey key l with
  | none => rw [maxByKey_eq_none.mp h] at hp; rw [hp.nil_eq.symm]; rfl
  | some b =>
    obtain ⟨c, hc, _⟩ := exists_maxByKey key (hp.mem_iff.mp (isGreatest_of_maxByKey h).1)
    rw [hc]
    rfl

/-- A greatest element at the end is the one chosen. -/
theorem maxByKey_concat (h : ∀ b ∈ l, key b ≤ key a) : maxByKey key (l ++ [a]) = some a := by
  have hrev : (l ++ [a]).reverse = a :: l.reverse := by simp
  unfold maxByKey
  rw [hrev]
  refine List.mem_argmax_iff.mpr ⟨List.mem_cons_self, fun b hb => ?_, fun b _ _ => ?_⟩
  · cases List.mem_cons.mp hb with
    | inl he => exact he ▸ le_refl _
    | inr hb => exact h b (List.mem_reverse.mp hb)
  · rw [List.idxOf_cons_self]
    exact Nat.zero_le _

/-- Each greatest element is chosen in some order of the list. -/
theorem IsGreatest.exists_perm (h : IsGreatest key l a) : ∃ l', l'.Perm l ∧ maxByKey key l' = some a := by
  refine ⟨l.erase a ++ [a], ?_, maxByKey_concat fun b hb => h.2 b (List.mem_of_mem_erase hb)⟩
  exact List.perm_append_comm.trans (List.perm_cons_erase h.1).symm

theorem maxByKey_perm (hone : ∀ a b, IsGreatest key l a → IsGreatest key l b → a = b) (hp : l'.Perm l) :
    maxByKey key l' = maxByKey key l := by
  cases h : maxByKey key l' with
  | none =>
    have hnil := maxByKey_eq_none.mp h
    rw [hnil] at hp
    exact (maxByKey_eq_none.mpr hp.nil_eq.symm).symm
  | some a =>
    have ha := (isGreatest_of_maxByKey h).perm hp
    obtain ⟨b, hb, hgreatest⟩ := exists_maxByKey key ha.1
    rw [hb, hone a b ha hgreatest]

/-- The choice is the same in every order exactly where only one element is greatest. -/
theorem maxByKey_perm_iff : (∀ l', l'.Perm l → maxByKey key l' = maxByKey key l) ↔
    ∀ a b, IsGreatest key l a → IsGreatest key l b → a = b := by
  constructor
  · intro h a b ha hb
    obtain ⟨la, hpa, hla⟩ := ha.exists_perm
    obtain ⟨lb, hpb, hlb⟩ := hb.exists_perm
    rw [h la hpa] at hla
    rw [h lb hpb, hla] at hlb
    exact Option.some.inj hlb
  · exact fun h l' hp => maxByKey_perm h hp

end

end LinuxHardener
