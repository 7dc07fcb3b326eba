import LinuxHardener.Lib.FirstBy
import Mathlib.Algebra.BigOperators.Group.List.Basic
import Mathlib.Algebra.GroupWithZero.Nat

/-
  Tallies: amounts added up under their keys, the keys in the order they were first met.

  What is proved:
    1. `keys_tally` — a tally has each key once, in the order of the first entries.
    2. `mem_tally` — and under it the sum of its entries.
-/
namespace LinuxHardener.Tally

variable {κ : Type} [DecidableEq κ]

/-- Adds to the amount of the first entry for the key, or starts one. -/
def add (key : κ) (n : Nat) : List (κ × Nat) → List (κ × Nat)
  | [] => [(key, n)]
  | (k, m) :: rest => if k = key then (k, m + n) :: rest else (k, m) :: add key n rest

def tally (entries : List (κ × Nat)) : List (κ × Nat) := entries.foldl (fun t e => add e.1 e.2 t) []

/-- What the entries for a key come to. -/
def amount (key : κ) (entries : List (κ × Nat)) : Nat := ((entries.filter fun e => e.1 = key).map Prod.snd).sum

@[simp] theorem amount_cons (key : κ) (e : κ × Nat) (entries : List (κ × Nat)) :
    amount key (e :: entries) = (if e.1 = key then e.2 else 0) + amount key entries := by
  by_cases h : e.1 = key <;> simp [amount, h]

theorem amount_append (key : κ) (s t : List (κ × Nat)) : amount key (s ++ t) = amount key s + amount key t := by
  simp [amount]

theorem amount_add (key : κ) (k : κ) (n : Nat) (t : List (κ × Nat)) :
    amount key (add k n t) = amount key t + if k = key then n else 0 := by
  induction t with
  | nil => by_cases h : k = key <;> simp [add, amount, h]
  | cons e t ih =>
    obtain ⟨k', m⟩ := e
    rw [add]
    split
    · next h =>
      subst h
      rw [amount_cons, amount_cons]
      dsimp only
      split <;> omega
    · rw [amount_cons, amount_cons, ih]
      omega

theorem keys_add (k : κ) (n : Nat) (t : List (κ × Nat)) :
    (add k n t).map Prod.fst = if k ∈ t.map Prod.fst then t.map Prod.fst else t.map Prod.fst ++ [k] := by
  induction t with
  | nil => simp [add]
  | cons e t ih =>
    rw [add]
    split
    · next h =>
      subst h
      simp
    · next h =>
      rw [List.map_cons, ih, List.map_cons]
      have hne : k ≠ e.1 := Ne.symm h
      by_cases hmem : k ∈ t.map Prod.fst
      · rw [if_pos hmem, if_pos (List.mem_cons_of_mem _ hmem)]
      · rw [if_neg hmem, if_neg (by simp only [List.mem_cons, not_or]; exact ⟨hne, hmem⟩)]
        rfl

theorem amount_foldl (key : κ) (entries t : List (κ × Nat)) :
    amount key (entries.foldl (fun t e => add e.1 e.2 t) t) = amount key t + amount key entries := by
  induction entries generalizing t with
  | nil => simp [amount]
  | cons e entries ih =>
    rw [List.foldl_cons, ih, amount_add, amount_cons]
    omega

theorem keys_foldl (entries t : List (κ × Nat)) (seen : List κ) (hseen : ∀ k, k ∈ seen ↔ k ∈ t.map Prod.fst) :
    (entries.foldl (fun t e => add e.1 e.2 t) t).map Prod.fst = t.map Prod.fst ++ firstBy id seen (entries.map Prod.fst) := by
  induction entries generalizing t seen with
  | nil => simp [firstBy]
  | cons e entries ih =>
    rw [List.foldl_cons, List.map_cons, firstBy]
    change _ = _ ++ if e.1 ∈ seen then _ else _
    by_cases hmem : e.1 ∈ seen
    · have hkeys : (add e.1 e.2 t).map Prod.fst = t.map Prod.fst := by rw [keys_add, if_pos ((hseen _).mp hmem)]
      rw [if_pos hmem, ih _ seen (by rw [hkeys]; exact hseen), hkeys]
    · have hkeys : (add e.1 e.2 t).map Prod.fst = t.map Prod.fst ++ [e.1] := by
        rw [keys_add, if_neg fun h => hmem ((hseen _).mpr h)]
      have hseen' : ∀ k, k ∈ e.1 :: seen ↔ k ∈ (add e.1 e.2 t).map Prod.fst := by
        intro k
        rw [hkeys, List.mem_append, List.mem_cons, List.mem_singleton, hseen, or_comm]
      rw [if_neg hmem, ih _ (e.1 :: seen) hseen', hkeys, List.append_assoc]
      rfl

/-- Each key once, in the order of the first entries. -/
theorem keys_tally (entries : List (κ × Nat)) : (tally entries).map Prod.fst = firstBy id [] (entries.map Prod.fst) := by
  have h := keys_foldl entries [] [] fun k => by simp
  rwa [List.map_nil, List.nil_append] at h

theorem nodup_tally (entries : List (κ × Nat)) : ((tally entries).map Prod.fst).Nodup := by
  rw [keys_tally, ← List.map_id (firstBy id [] _)]
  exact nodup_keys_firstBy [] _

/-- In a list that has each key once an entry is all there is of its key. -/
theorem amount_of_mem {t : List (κ × Nat)} (hn : (t.map Prod.fst).Nodup) {key : κ} {n : Nat} (h : (key, n) ∈ t) : amount key t = n := by
  induction t with
  | nil => cases h
  | cons e t ih =>
    obtain ⟨hfirst, hrest⟩ := List.nodup_cons.mp hn
    rw [amount_cons]
    cases h with
    | head =>
      have hnone : t.filter (fun e => e.1 = key) = [] := by
        refine List.filter_eq_nil_iff.mpr fun e he hkey => hfirst ?_
        have hmem : e.1 ∈ t.map Prod.fst := List.mem_map_of_mem he
        rwa [of_decide_eq_true hkey] at hmem
      simp [amount, hnone]
    | tail _ hmem =>
      have hne : e.1 ≠ key := fun heq => hfirst (heq ▸ List.mem_map_of_mem hmem)
      rw [if_neg hne, ih hrest hmem, Nat.zero_add]

/-- Under each key the sum of its entries. -/
theorem mem_tally {entries : List (κ × Nat)} {key : κ} {n : Nat} :
    (key, n) ∈ tally entries ↔ key ∈ entries.map Prod.fst ∧ n = amount key entries := by
  have hamount : ∀ key, amount key (tally entries) = amount key entries := by
    intro key
    have h := amount_foldl key entries []
    rwa [show amount key ([] : List (κ × Nat)) = 0 from rfl, Nat.zero_add] at h
  have hkeys : key ∈ (tally entries).map Prod.fst ↔ key ∈ entries.map Prod.fst := by
    have h : key ∈ (firstBy id [] (entries.map Prod.fst)).map id ↔ key ∈ (entries.map Prod.fst).map id ∧ key ∉ [] :=
      mem_keys_firstBy
    rw [List.map_id, List.map_id, ← keys_tally] at h
    simpa using h
  constructor
  · intro h
    refine ⟨hkeys.mp (List.mem_map_of_mem h), ?_⟩
    rw [← hamount, amount_of_mem (nodup_tally entries) h]
  · intro ⟨hkey, hn⟩
    obtain ⟨⟨k, m⟩, hmem, rfl⟩ := List.mem_map.mp (hkeys.mpr hkey)
    rw [hn, ← hamount, amount_of_mem (nodup_tally entries) hmem]
    exact hmem

end LinuxHardener.Tally
