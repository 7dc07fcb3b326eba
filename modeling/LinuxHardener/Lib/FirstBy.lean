import Mathlib.Data.List.Nodup

/-
  Keeping the first of each key: a loop over a list with a set of the keys seen.
-/
namespace LinuxHardener

section

variable {α κ : Type} [DecidableEq κ]

/-- The elements whose key is not seen yet, each key's first one. -/
def firstBy (key : α → κ) : List κ → List α → List α
  | _, [] => []
  | seen, a :: rest => if key a ∈ seen then firstBy key seen rest else a :: firstBy key (key a :: seen) rest

variable {key : α → κ}

/-- The keys kept are those of the list that were not seen before. -/
theorem mem_keys_firstBy {seen : List κ} {l : List α} {k : κ} :
    k ∈ (firstBy key seen l).map key ↔ k ∈ l.map key ∧ k ∉ seen := by
  induction l generalizing seen with
  | nil => simp [firstBy]
  | cons a l ih =>
    rw [firstBy]
    split
    · next ha =>
      rw [ih, List.map_cons, List.mem_cons]
      constructor
      · exact fun ⟨hk, hn⟩ => ⟨.inr hk, hn⟩
      · rintro ⟨rfl | hk, hn⟩
        · exact absurd ha hn
        · exact ⟨hk, hn⟩
    · next ha =>
      rw [List.map_cons, List.mem_cons, ih, List.map_cons, List.mem_cons, List.mem_cons]
      by_cases hka : k = key a
      · subst hka
        simp [ha]
      · simp [hka]

/-- No key is kept twice. -/
theorem nodup_keys_firstBy (seen : List κ) (l : List α) : ((firstBy key seen l).map key).Nodup := by
  induction l generalizing seen with
  | nil => exact List.nodup_nil
  | cons a l ih =>
    rw [firstBy]
    split
    · exact ih seen
    · rw [List.map_cons, List.nodup_cons]
      exact ⟨fun h => (mem_keys_firstBy.mp h).2 List.mem_cons_self, ih _⟩

/-- Where the key is read off an image of the elements, the image may be taken before or after. -/
theorem map_firstBy {β : Type} (f : α → β) (key : β → κ) (seen : List κ) (l : List α) :
    (firstBy (fun a => key (f a)) seen l).map f = firstBy key seen (l.map f) := by
  induction l generalizing seen with
  | nil => rfl
  | cons a l ih =>
    rw [firstBy, List.map_cons, firstBy]
    split
    · exact ih seen
    · rw [List.map_cons, ih]

/-- A list that repeats no key is kept as it is. -/
theorem firstBy_eq_self {seen : List κ} {l : List α} (h : (l.map key).Nodup) (hseen : ∀ a ∈ l, key a ∉ seen) :
    firstBy key seen l = l := by
  induction l generalizing seen with
  | nil => rfl
  | cons a l ih =>
    obtain ⟨ha, hl⟩ := List.nodup_cons.mp h
    rw [firstBy, if_neg (hseen a List.mem_cons_self), ih hl]
    intro b hb
    have hba : key b ≠ key a := fun he => ha (List.mem_map.mpr ⟨b, hb, he⟩)
    simp [hba, hseen b (List.mem_cons_of_mem _ hb)]

end

end LinuxHardener
