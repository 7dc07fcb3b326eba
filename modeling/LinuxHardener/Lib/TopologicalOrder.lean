import Mathlib.Data.List.Basic
import Mathlib.Logic.Relation
import Mathlib.Tactic.Common

/-
  Orders of a finite graph's nodes in which every edge points forward.

  `Before l a b` says that `a` stands before `b` in `l`. What is proved: in such an order
  every path points forward (`TopologicalOrder.before`), and taking some of the nodes
  keeps what stood before what (`Before.filter`).
-/
namespace LinuxHardener.Graphs

variable {α : Type}

/-- In the list, the one stands before the other. -/
def Before : List α → α → α → Prop
  | [], _, _ => False
  | x :: l, a, b => (x = a ∧ b ∈ l) ∨ Before l a b

namespace Before

variable {l : List α} {a b c : α}

theorem mem (h : Before l a b) : a ∈ l ∧ b ∈ l := by
  induction l with
  | nil => exact h.elim
  | cons x l ih =>
    obtain ⟨rfl, hb⟩ | h := h
    · exact ⟨List.mem_cons_self, List.mem_cons_of_mem _ hb⟩
    · exact ⟨List.mem_cons_of_mem _ (ih h).1, List.mem_cons_of_mem _ (ih h).2⟩

theorem trans (hnodup : l.Nodup) (hab : Before l a b) (hbc : Before l b c) : Before l a c := by
  induction l with
  | nil => exact hab.elim
  | cons x l ih =>
    obtain ⟨hx, hl⟩ := List.nodup_cons.mp hnodup
    obtain ⟨rfl, hb⟩ | hab := hab
    · obtain ⟨rfl, _⟩ | hbc := hbc
      · exact absurd hb hx
      · exact .inl ⟨rfl, hbc.mem.2⟩
    · obtain ⟨rfl, _⟩ | hbc := hbc
      · exact absurd hab.mem.2 hx
      · exact .inr (ih hl hab hbc)

theorem filter {p : α → Bool} (ha : p a = true) (hb : p b = true) (h : Before l a b) : Before (l.filter p) a b := by
  induction l with
  | nil => exact h.elim
  | cons x l ih =>
    obtain ⟨rfl, hmem⟩ | h := h
    · rw [List.filter_cons_of_pos ha]
      exact .inl ⟨rfl, List.mem_filter.mpr ⟨hmem, hb⟩⟩
    · rw [List.filter_cons]
      split
      · exact .inr (ih h)
      · exact ih h

theorem rel {r : α → α → Prop} (hl : l.Pairwise r) (h : Before l a b) : r a b := by
  induction l with
  | nil => exact h.elim
  | cons x l ih =>
    obtain ⟨hx, hl⟩ := List.pairwise_cons.mp hl
    obtain ⟨rfl, hb⟩ | h := h
    · exact hx b hb
    · exact ih hl h

theorem total (ha : a ∈ l) (hb : b ∈ l) (hne : a ≠ b) : Before l a b ∨ Before l b a := by
  induction l with
  | nil => cases ha
  | cons x l ih =>
    obtain rfl | ha' := List.mem_cons.mp ha
    · obtain rfl | hb' := List.mem_cons.mp hb
      · exact absurd rfl hne
      · exact .inl (.inl ⟨rfl, hb'⟩)
    · obtain rfl | hb' := List.mem_cons.mp hb
      · exact .inr (.inl ⟨rfl, ha'⟩)
      · exact (ih ha' hb').imp .inr .inr

end Before

/-- No path leads from a node back to it. -/
def Acyclic (edge : α → α → Prop) : Prop := ∀ a, ¬ Relation.TransGen edge a a

/-- The nodes, each once, and no edge back. -/
structure TopologicalOrder (edge : α → α → Prop) (nodes order : List α) : Prop where
  mem_iff : ∀ a, a ∈ order ↔ a ∈ nodes
  nodup : order.Nodup
  forward : order.Pairwise fun a b => ¬ edge b a

/-- Every path points forward. -/
theorem TopologicalOrder.before {edge : α → α → Prop} {nodes order : List α} (h : TopologicalOrder edge nodes order)
    (hacyclic : Acyclic edge) (hnodes : ∀ a b, edge a b → a ∈ nodes ∧ b ∈ nodes) {a b : α}
    (hpath : Relation.TransGen edge a b) : Before order a b := by
  have hedge : ∀ a b, edge a b → Before order a b := by
    intro a b hab
    have hne : a ≠ b := by
      intro heq
      subst heq
      exact hacyclic a (.single hab)
    obtain ⟨ha, hb⟩ := hnodes a b hab
    rcases Before.total ((h.mem_iff a).mpr ha) ((h.mem_iff b).mpr hb) hne with hbefore | hafter
    · exact hbefore
    · exact absurd hab (hafter.rel h.forward)
  induction hpath with
  | single hab => exact hedge _ _ hab
  | tail _ hbc ih => exact ih.trans h.nodup (hedge _ _ hbc)

end LinuxHardener.Graphs
