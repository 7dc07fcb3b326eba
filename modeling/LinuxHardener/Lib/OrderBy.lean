import Mathlib.Data.List.Perm.Basic
import Mathlib.Data.List.Nodup
import Mathlib.Order.Lattice

/-
  `ORDER BY key DESC`: the orders in which a table may be read.

  An engine is free to put rows of one key in any order, unless a second column says
  which comes first. A table is the list of its rows, the oldest row id first.

  What is proved: `take_descending_iff` — the first rows of every such order are the same
  rows exactly where no key has rows on both sides of the cut.
-/
namespace LinuxHardener

section

variable {Row κ : Type} [LinearOrder κ] {key : Row → κ} {rows order l : List Row} {k : Nat}

/-- What `ORDER BY key DESC` may answer. -/
structure Descending (key : Row → κ) (rows l : List Row) : Prop where
  perm : l.Perm rows
  sorted : l.Pairwise fun a b => key b ≤ key a

/-- `ORDER BY key DESC, rowid DESC` -/
def newestFirst (key : Row → κ) (rows : List Row) : List Row := rows.reverse.mergeSort fun a b => key b ≤ key a

theorem descending_newestFirst (key : Row → κ) (rows : List Row) : Descending key rows (newestFirst key rows) := by
  refine ⟨(List.mergeSort_perm ..).trans rows.reverse_perm, ?_⟩
  have hsorted := @List.pairwise_mergeSort Row (fun a b => decide (key b ≤ key a))
    (fun a b c hab hbc => decide_eq_true (le_trans (of_decide_eq_true hbc) (of_decide_eq_true hab)))
    (fun a b => by simpa using le_total (key b) (key a)) rows.reverse
  exact hsorted.imp fun h => of_decide_eq_true h

/-- Of two rows with one key, the one with the higher row id is read first. -/
theorem newestFirst_tie {a b : Row} (h : [a, b].Sublist rows) (he : key a = key b) : [b, a].Sublist (newestFirst key rows) := by
  have hrev : [b, a].Sublist rows.reverse := by simpa using h.reverse
  refine List.sublist_mergeSort (fun a b c hab hbc => ?_) (fun a b => ?_) ?_ hrev
  · exact decide_eq_true (le_trans (of_decide_eq_true hbc) (of_decide_eq_true hab))
  · simpa using le_total (key b) (key a)
  · simpa using le_of_eq he

/-- Rows of one key are read from the last to the first. -/
theorem newestFirst_of_ties (h : ∀ a ∈ rows, ∀ b ∈ rows, key a = key b) : newestFirst key rows = rows.reverse := by
  refine List.mergeSort_of_pairwise (List.pairwise_of_forall_mem_list fun a ha b hb => ?_)
  exact decide_eq_true (le_of_eq (h b (List.mem_reverse.mp hb) a (List.mem_reverse.mp ha)))

/-- A sorted list in which the wanted rows have the greater keys begins with them. -/
theorem sorted_separates {p : Row → Bool} (hs : l.Pairwise fun a b => key b ≤ key a)
    (h : ∀ a ∈ l, ∀ b ∈ l, p a = true → p b = false → key b < key a) : l = l.filter p ++ l.filter fun a => !p a := by
  induction l with
  | nil => rfl
  | cons a l ih =>
    obtain ⟨ha, hs⟩ := List.pairwise_cons.mp hs
    have hrest := ih hs fun x hx y hy => h x (List.mem_cons_of_mem a hx) y (List.mem_cons_of_mem a hy)
    cases hp : p a with
    | true =>
      rw [List.filter_cons_of_pos hp, List.filter_cons_of_neg (by simp [hp]), List.cons_append, ← hrest]
    | false =>
      have hnone : l.filter p = [] := List.filter_eq_nil_iff.mpr fun x hx hpx =>
        absurd (ha x hx) (not_le.mpr (h x (List.mem_cons_of_mem a hx) a List.mem_cons_self hpx hp))
      have hall : (l.filter fun a => !p a) = l := by
        rw [hnone, List.nil_append] at hrest
        exact hrest.symm
      rw [List.filter_cons_of_neg (by simp [hp]), List.filter_cons_of_pos (by simp [hp]), hnone, hall]
      rfl

/-- No key has rows on both sides of the cut. -/
def NoTieAt (key : Row → κ) (order : List Row) (k : Nat) : Prop :=
  ∀ a ∈ order.take k, ∀ b ∈ order.drop k, key a ≠ key b

theorem lt_of_noTieAt (hN : Descending key rows order) (h : NoTieAt key order k) {a b : Row} (ha : a ∈ order.take k)
    (hb : b ∈ order.drop k) : key b < key a := by
  have hsorted := hN.sorted
  rw [← List.take_append_drop k order] at hsorted
  exact lt_of_le_of_ne ((List.pairwise_append.mp hsorted).2.2 a ha b hb) (Ne.symm (h a ha b hb))

/-- Without such a tie, every order begins with the same rows. -/
theorem mem_take_of_noTieAt [DecidableEq Row] (hn : rows.Nodup) (hN : Descending key rows order) (h : NoTieAt key order k)
    (hl : Descending key rows l) (r : Row) :
    r ∈ l.take k ↔ r ∈ order.take k := by
  have hsplit := List.take_append_drop k order
  have hNnodup : order.Nodup := hN.perm.nodup_iff.mpr hn
  -- The rows before the cut are told from the others by membership.
  let p : Row → Bool := fun r => decide (r ∈ order.take k)
  have hnotp : ∀ b ∈ order, p b = false → b ∈ order.drop k := by
    intro b hb hp
    rw [← hsplit] at hb
    exact (List.mem_append.mp hb).resolve_left (of_decide_eq_false hp)
  have hmem : ∀ b ∈ l, b ∈ order := fun b hb => hN.perm.mem_iff.mpr (hl.perm.mem_iff.mp hb)
  have hseparated := sorted_separates (p := p) hl.sorted fun a ha b hb hpa hpb =>
    lt_of_noTieAt hN h (of_decide_eq_true hpa) (hnotp b (hmem b hb) hpb)
  have hfilter : order.filter p = order.take k := by
    have hdisjoint := List.disjoint_of_nodup_append (hsplit.symm ▸ hNnodup)
    conv_lhs => rw [← hsplit]
    rw [List.filter_append, List.filter_eq_self.mpr fun a ha => decide_eq_true ha, List.filter_eq_nil_iff.mpr, List.append_nil]
    exact fun b hb hp => hdisjoint (of_decide_eq_true hp) hb
  have hlength : (l.filter p).length = (order.take k).length := by
    rw [← hfilter]
    exact ((hl.perm.trans hN.perm.symm).filter p).length_eq
  have hfilterMem : r ∈ l.filter p ↔ r ∈ order.take k := by
    rw [← hfilter]
    exact ((hl.perm.trans hN.perm.symm).filter p).mem_iff
  by_cases hk : k ≤ order.length
  · rw [List.length_take, Nat.min_eq_left hk] at hlength
    rw [hseparated, List.take_append_of_le_length (Nat.le_of_eq hlength.symm), List.take_of_length_le (Nat.le_of_eq hlength)]
    exact hfilterMem
  · have hlen : l.length = order.length := (hl.perm.trans hN.perm.symm).length_eq
    rw [List.take_of_length_le (by omega), List.take_of_length_le (by omega)]
    exact (hl.perm.trans hN.perm.symm).mem_iff

/-- With one, some order has the other row before the cut. -/
theorem exists_descending_of_tie (hN : Descending key rows order) {a b : Row} (ha : a ∈ order.take k)
    (hb : b ∈ order.drop k) (he : key a = key b) : ∃ l, Descending key rows l ∧ b ∈ l.take k := by
  obtain ⟨before, between, hbefore⟩ := List.append_of_mem ha
  obtain ⟨between', after, hafter⟩ := List.append_of_mem hb
  have hsplit : order = (before ++ a :: between) ++ (between' ++ b :: after) := by
    rw [← hbefore, ← hafter, List.take_append_drop]
  refine ⟨(before ++ b :: between) ++ (between' ++ a :: after), ⟨?_, ?_⟩, ?_⟩
  · refine List.Perm.trans ?_ hN.perm
    rw [hsplit]
    have hswap : ∀ x y : Row, ((before ++ x :: between) ++ (between' ++ y :: after)).Perm
        (x :: y :: (before ++ between ++ between' ++ after)) := by
      intro x y
      have hx : ((before ++ x :: between) ++ (between' ++ y :: after)).Perm
          (x :: (before ++ between ++ (between' ++ y :: after))) := by
        rw [List.append_assoc, List.cons_append]
        refine List.perm_middle.trans ?_
        rw [List.append_assoc]
      refine hx.trans (List.Perm.cons x ?_)
      rw [← List.append_assoc]
      refine List.perm_middle.trans ?_
      rw [List.append_assoc (before ++ between)]
    exact (hswap b a).trans ((List.Perm.swap a b _).trans (hswap a b).symm)
  · have hsorted : (order.map key).Pairwise fun x y => y ≤ x := List.pairwise_map.mpr hN.sorted
    have hmap : ((before ++ b :: between) ++ (between' ++ a :: after)).map key = order.map key := by
      rw [hsplit]
      simp [he]
    rw [← hmap] at hsorted
    exact List.pairwise_map.mp hsorted
  · have hle : (before ++ b :: between).length ≤ k := by
      have := congrArg List.length hbefore
      simp only [List.length_take, List.length_append, List.length_cons] at this ⊢
      omega
    rw [List.take_append, List.take_of_length_le hle]
    simp

/-- Every order begins with the same rows exactly where no key stands on both sides. -/
theorem take_descending_iff [DecidableEq Row] (hn : rows.Nodup) (hN : Descending key rows order) :
    (∀ l, Descending key rows l → ∀ r, r ∈ l.take k ↔ r ∈ order.take k) ↔ NoTieAt key order k := by
  constructor
  · intro h a ha b hb he
    obtain ⟨l, hl, hbl⟩ := exists_descending_of_tie hN ha hb he
    have hnodup : order.Nodup := hN.perm.nodup_iff.mpr hn
    rw [← List.take_append_drop k order] at hnodup
    exact List.disjoint_of_nodup_append hnodup ((h l hl b).mp hbl) hb
  · exact fun h l hl r => mem_take_of_noTieAt hn hN h hl r

/-! ## Rows chosen by their ids -/

variable {ι : Type} [DecidableEq ι] {id : Row → ι}

theorem id_mem_take_iff (hn : (rows.map id).Nodup) (hl : l.Perm rows) {r : Row} (hr : r ∈ rows) :
    id r ∈ (l.take k).map id ↔ r ∈ l.take k := by
  constructor
  · intro h
    obtain ⟨s, hs, he⟩ := List.mem_map.mp h
    have hsr : s ∈ rows := hl.mem_iff.mp (List.mem_of_mem_take hs)
    exact List.inj_on_of_nodup_map hn hsr hr he ▸ hs
  · exact List.mem_map_of_mem

/-- As many are left as the order has before the cut. -/
theorem length_filter_take [DecidableEq Row] (hn : (rows.map id).Nodup) (hl : l.Perm rows) :
    (rows.filter fun r => ((l.take k).map id).contains (id r)).length = min k rows.length := by
  have hnodup : rows.Nodup := List.Nodup.of_map id hn
  have hids : ∀ r ∈ rows, ((l.take k).map id).contains (id r) = decide (r ∈ l.take k) := by
    intro r hr
    rw [Bool.eq_iff_iff, List.contains_iff_mem, id_mem_take_iff hn hl hr, decide_eq_true_iff]
  have hperm : (rows.filter fun r => decide (r ∈ l.take k)).Perm (l.take k) := by
    refine (List.perm_ext_iff_of_nodup (hnodup.filter _) ((hl.nodup_iff.mpr hnodup).sublist (List.take_sublist ..))).mpr fun r => ?_
    rw [List.mem_filter, decide_eq_true_iff]
    exact ⟨And.right, fun h => ⟨hl.mem_iff.mp (List.mem_of_mem_take h), h⟩⟩
  rw [List.filter_congr hids, hperm.length_eq, List.length_take, hl.length_eq]

theorem filter_eq_filter_iff {p q : Row → Bool} : rows.filter p = rows.filter q ↔ ∀ r ∈ rows, p r = q r := by
  constructor
  · intro h r hr
    rw [Bool.eq_iff_iff]
    exact ⟨fun hp => (List.mem_filter.mp (h ▸ List.mem_filter.mpr ⟨hr, hp⟩)).2,
      fun hq => (List.mem_filter.mp (h.symm ▸ List.mem_filter.mpr ⟨hr, hq⟩)).2⟩
  · exact List.filter_congr

/-- The rows left where all but the first of an order are deleted, by their ids. -/
theorem filter_take_iff [DecidableEq Row] (hn : (rows.map id).Nodup) (hN : Descending key rows order) :
    (∀ l, Descending key rows l → rows.filter (fun r => ((l.take k).map id).contains (id r)) =
      rows.filter fun r => ((order.take k).map id).contains (id r)) ↔ NoTieAt key order k := by
  have hnodup : rows.Nodup := List.Nodup.of_map id hn
  rw [← take_descending_iff hnodup hN]
  refine forall₂_congr fun l hl => ?_
  rw [filter_eq_filter_iff]
  constructor
  · intro h r
    by_cases hr : r ∈ rows
    · have hsame := h r hr
      rw [Bool.eq_iff_iff, List.contains_iff_mem, List.contains_iff_mem, id_mem_take_iff hn hl.perm hr,
        id_mem_take_iff hn hN.perm hr] at hsame
      exact hsame
    · have hno : ∀ l' : List Row, l'.Perm rows → r ∉ l'.take k := fun l' hp hmem => hr (hp.mem_iff.mp (List.mem_of_mem_take hmem))
      exact ⟨fun h => absurd h (hno l hl.perm), fun h => absurd h (hno _ hN.perm)⟩
  · intro h r hr
    rw [Bool.eq_iff_iff, List.contains_iff_mem, List.contains_iff_mem, id_mem_take_iff hn hl.perm hr,
      id_mem_take_iff hn hN.perm hr]
    exact h r

end

end LinuxHardener
