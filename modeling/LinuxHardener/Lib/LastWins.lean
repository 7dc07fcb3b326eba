import Mathlib.Data.List.Nodup

/-
  Assignments to keys, of which the last to a key decides.

  What is proved:
    1. `settle_append` — what comes later is laid over what came before.
    2. `settle_of_nodup` — where no key is assigned twice, every assignment holds.
-/
namespace LinuxHardener

section

variable {κ ν : Type} [DecidableEq κ]

/-- A map with one more assignment. -/
def assign (m : κ → Option ν) (key : κ) (value : ν) : κ → Option ν := fun k => if k = key then some value else m k

/-- What is left of a map under a later one. -/
def overlay (m n : κ → Option ν) : κ → Option ν := fun k => (n k).or (m k)

/-- What a list of assignments leaves. -/
def settle (as : List (κ × ν)) : κ → Option ν := as.foldl (fun m a => assign m a.1 a.2) fun _ => none

@[simp] theorem assign_self (m : κ → Option ν) (key : κ) (value : ν) : assign m key value key = some value := if_pos rfl

theorem assign_ne (m : κ → Option ν) {key k : κ} (h : k ≠ key) (value : ν) : assign m key value k = m k := if_neg h

theorem overlay_assign (m n : κ → Option ν) (key : κ) (value : ν) :
    overlay m (assign n key value) = assign (overlay m n) key value := by
  funext k
  unfold overlay assign
  split <;> rfl

theorem foldl_assign (as : List (κ × ν)) (m n : κ → Option ν) :
    as.foldl (fun m a => assign m a.1 a.2) (overlay m n) = overlay m (as.foldl (fun m a => assign m a.1 a.2) n) := by
  induction as generalizing n with
  | nil => rfl
  | cons a as ih => rw [List.foldl_cons, List.foldl_cons, ← overlay_assign, ih]

@[simp] theorem settle_nil : settle ([] : List (κ × ν)) = fun _ => none := rfl

theorem settle_append (as bs : List (κ × ν)) : settle (as ++ bs) = overlay (settle as) (settle bs) := by
  unfold settle
  rw [List.foldl_append]
  show _ = overlay (as.foldl (fun m a => assign m a.1 a.2) fun _ => none) (bs.foldl (fun m a => assign m a.1 a.2) fun _ => none)
  rw [← foldl_assign]
  rfl

theorem settle_cons (a : κ × ν) (as : List (κ × ν)) (key : κ) :
    settle (a :: as) key = (settle as key).or (if key = a.1 then some a.2 else none) := by
  rw [← List.singleton_append, settle_append]
  rfl

theorem settle_concat (as : List (κ × ν)) (a : κ × ν) (key : κ) :
    settle (as ++ [a]) key = if key = a.1 then some a.2 else settle as key := by
  unfold settle
  rw [List.foldl_append]
  rfl

theorem settle_eq_none {as : List (κ × ν)} {key : κ} : settle as key = none ↔ ∀ a ∈ as, a.1 ≠ key := by
  induction as with
  | nil => simp
  | cons a as ih =>
    rw [settle_cons, Option.or_eq_none_iff, ih, List.forall_mem_cons]
    by_cases h : key = a.1
    · simp [h]
    · simp [h, Ne.symm h]

/-- Where the keys of a list differ, what it assigns to one of them is looked up. -/
theorem settle_filterMap {α : Type} {l : List α} {k : α → κ} (hn : (l.map k).Nodup) (f : α → Option ν) (key : κ) :
    settle (l.filterMap fun a => (f a).map fun v => (k a, v)) key = (l.find? fun a => k a = key).bind f := by
  induction l with
  | nil => rfl
  | cons a l ih =>
    rw [List.map_cons, List.nodup_cons] at hn
    rw [List.filterMap_cons, List.find?_cons]
    by_cases h : k a = key
    · have hrest : (l.find? fun b => k b = key) = none := by
        rw [List.find?_eq_none]
        intro b hb he
        exact hn.1 (List.mem_map.mpr ⟨b, hb, (decide_eq_true_eq.mp he).trans h.symm⟩)
      have := ih hn.2
      rw [hrest] at this
      rw [decide_eq_true h]
      cases hf : f a with
      | none => simpa [hf] using this
      | some v => simp [settle_cons, this, h, hf]
    · rw [decide_eq_false h]
      cases hf : f a with
      | none => simpa using ih hn.2
      | some v => simp [settle_cons, ih hn.2, Ne.symm h]

end

end LinuxHardener
