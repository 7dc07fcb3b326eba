import Mathlib.Data.List.Basic

/-
  Lists of guarded verdicts, of which the first that covers a case decides; and two readings
  of one list that each stop at the first element they make something of.
-/
namespace LinuxHardener

/-- A guard, with what it decides. -/
structure Filter (α V : Type) where
  covers : α → Bool
  verdict : V

section

variable {α V : Type}

/-- The verdict of the first filter that covers a case, and `default` when none does. -/
def firstMatch (default : V) : List (Filter α V) → α → V
  | [], _ => default
  | f :: fs, a => if f.covers a then f.verdict else firstMatch default fs a

variable {default default' v : V} {f : Filter α V} {fs gs : List (Filter α V)} {a : α}

@[simp] theorem firstMatch_nil : firstMatch default [] a = default := rfl

theorem firstMatch_cons_of_covers (h : f.covers a = true) : firstMatch default (f :: fs) a = f.verdict := if_pos h

theorem firstMatch_cons_of_not_covers (h : f.covers a = false) :
    firstMatch default (f :: fs) a = firstMatch default fs a := by
  rw [firstMatch, h]
  exact if_neg Bool.false_ne_true

/-- The later filters are the earlier ones' default. -/
theorem firstMatch_append :
    firstMatch default (fs ++ gs) a = firstMatch (firstMatch default gs a) fs a := by
  induction fs with
  | nil => rfl
  | cons f fs ih => rw [List.cons_append, firstMatch, firstMatch, ih]

theorem firstMatch_of_not_covers (h : ∀ f ∈ fs, f.covers a = false) : firstMatch default fs a = default := by
  induction fs with
  | nil => rfl
  | cons f fs ih =>
    rw [firstMatch_cons_of_not_covers (h f List.mem_cons_self)]
    exact ih fun g hg => h g (List.mem_cons_of_mem f hg)

/-- Every verdict there may be is avoided. -/
theorem firstMatch_ne (hd : default ≠ v) (h : ∀ f ∈ fs, f.covers a = true → f.verdict ≠ v) :
    firstMatch default fs a ≠ v := by
  induction fs with
  | nil => exact hd
  | cons f fs ih =>
    rw [firstMatch]
    split
    · next hf => exact h f List.mem_cons_self hf
    · exact ih fun g hg => h g (List.mem_cons_of_mem f hg)

/-- Among defaults other than `v`, it does not matter for `v` which one it is. -/
theorem firstMatch_eq_iff_of_default_ne (hd : default ≠ v) (hd' : default' ≠ v) :
    firstMatch default fs a = v ↔ firstMatch default' fs a = v := by
  induction fs with
  | nil => exact ⟨fun h => absurd h hd, fun h => absurd h hd'⟩
  | cons f fs ih =>
    rw [firstMatch, firstMatch]
    split
    · exact Iff.rfl
    · exact ih

/-- Filters at the end that never give `v` may be left out, as far as `v` goes. -/
theorem firstMatch_append_eq_iff (hd : default ≠ v) (h : ∀ f ∈ gs, f.covers a = true → f.verdict ≠ v) :
    firstMatch default (fs ++ gs) a = v ↔ firstMatch default fs a = v := by
  rw [firstMatch_append]
  exact firstMatch_eq_iff_of_default_ne (firstMatch_ne hd h) hd

/-- Where every filter gives `v`, it takes one that covers the case, or the default. -/
theorem firstMatch_eq_iff_of_all (h : ∀ f ∈ fs, f.verdict = v) :
    firstMatch default fs a = v ↔ (∃ f ∈ fs, f.covers a = true) ∨ default = v := by
  induction fs with
  | nil => simp
  | cons f fs ih =>
    rw [firstMatch]
    split
    · next hf => simp [h f List.mem_cons_self, hf]
    · next hf => simp [ih fun g hg => h g (List.mem_cons_of_mem f hg), hf]

/-- A list of at most one filter. -/
theorem firstMatch_toList_eq_iff (hd : default ≠ v) {o : Option (Filter α V)} :
    firstMatch default o.toList a = v ↔ ∃ f, o = some f ∧ f.covers a = true ∧ f.verdict = v := by
  cases o with
  | none => simp [hd]
  | some f =>
    rw [Option.toList_some, firstMatch]
    split
    · next hf => simp [hf]
    · next hf => simp [hf, hd]

/-- A filter that does not cover the case may be left out. -/
theorem firstMatch_append_cons_of_not_covers (h : f.covers a = false) :
    firstMatch default (fs ++ f :: gs) a = firstMatch default (fs ++ gs) a := by
  rw [firstMatch_append, firstMatch_cons_of_not_covers h, ← firstMatch_append]

end

section

variable {α β : Type}

/-- At the first element that either reading makes something of, they agree: at once, or
where the other makes the same of the first later element it takes. -/
inductive FirstAlike (f g : α → Option β) : List α → Prop
  | nil : FirstAlike f g []
  | skip {a : α} {l : List α} : f a = none → g a = none → FirstAlike f g l → FirstAlike f g (a :: l)
  | both {a : α} {l : List α} {v : β} : f a = some v → g a = some v → FirstAlike f g (a :: l)
  | early {a : α} {l : List α} {v : β} : f a = some v → g a = none → l.findSome? g = some v → FirstAlike f g (a :: l)
  | late {a : α} {l : List α} {v : β} : f a = none → g a = some v → l.findSome? f = some v → FirstAlike f g (a :: l)

variable {f g : α → Option β} {l : List α}

theorem findSome?_eq_iff : l.findSome? f = l.findSome? g ↔ FirstAlike f g l := by
  constructor
  · intro h
    induction l with
    | nil => exact .nil
    | cons a l ih =>
      rw [List.findSome?_cons, List.findSome?_cons] at h
      cases hf : f a with
      | none =>
        cases hg : g a with
        | none =>
          rw [hf, hg] at h
          exact .skip hf hg (ih h)
        | some v =>
          rw [hf, hg] at h
          exact .late hf hg h
      | some v =>
        cases hg : g a with
        | none =>
          rw [hf, hg] at h
          exact .early hf hg h.symm
        | some w =>
          rw [hf, hg] at h
          exact .both hf (hg.trans h.symm)
  · intro h
    induction h with
    | nil => rfl
    | skip hf hg _ ih => rw [List.findSome?_cons, List.findSome?_cons, hf, hg]; exact ih
    | both hf hg => rw [List.findSome?_cons, List.findSome?_cons, hf, hg]
    | early hf hg hl => rw [List.findSome?_cons, List.findSome?_cons, hf, hg]; exact hl.symm
    | late hf hg hl => rw [List.findSome?_cons, List.findSome?_cons, hf, hg]; exact hl

end

end LinuxHardener
