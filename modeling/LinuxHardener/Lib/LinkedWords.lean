import Mathlib.Data.List.Induction
import Mathlib.Data.Set.Basic
import Mathlib.Tactic.Common

/-
  A chain of hashes over a list of words: each link hashes the previous one
  followed by the next word.

  What is proved, for any hash with links of one length:
    1. `head_snoc` — the head of a longer chain hashes the head of the shorter one.
    2. `commit` — two chains of one length with one head hold the same words, if
       the hash has no collision among what the two chains hash.
-/
namespace LinuxHardener.LinkedWords

section

variable {β : Type*} (H : List β → List β)

/-- The last link of the chain that starts at `prev`. -/
def head (prev : List β) : List (List β) → List β
  | [] => prev
  | d :: ds => head (H (prev ++ d)) ds

/-- What the chain hashes, in order. -/
def preimages (prev : List β) : List (List β) → List (List β)
  | [] => []
  | d :: ds => (prev ++ d) :: preimages (H (prev ++ d)) ds

variable {H}

@[simp] theorem head_nil (prev : List β) : head H prev [] = prev := rfl

theorem head_append (prev : List β) (ds es : List (List β)) :
    head H prev (ds ++ es) = head H (head H prev ds) es := by
  induction ds generalizing prev with
  | nil => rfl
  | cons d ds ih => exact ih _

theorem head_snoc (prev : List β) (ds : List (List β)) (d : List β) :
    head H prev (ds ++ [d]) = H (head H prev ds ++ d) := head_append prev ds [d]

theorem preimages_append (prev : List β) (ds es : List (List β)) :
    preimages H prev (ds ++ es) = preimages H prev ds ++ preimages H (head H prev ds) es := by
  induction ds generalizing prev with
  | nil => rfl
  | cons d ds ih => simp only [List.cons_append, preimages, head, ih]

theorem length_head {n : Nat} (hH : ∀ m, (H m).length = n) {prev : List β} (hp : prev.length = n)
    (ds : List (List β)) : (head H prev ds).length = n := by
  induction ds generalizing prev with
  | nil => exact hp
  | cons d ds ih => exact ih (hH _)

/-- Chains of one length with one head agree from their start on. -/
theorem commit {n : Nat} (hH : ∀ m, (H m).length = n) {prev prev' : List β} (hp : prev.length = n)
    (hp' : prev'.length = n) : ∀ {ds ds' : List (List β)}, ds.length = ds'.length →
    (∀ m ∈ preimages H prev ds, ∀ m' ∈ preimages H prev' ds', H m = H m' → m = m') →
    head H prev ds = head H prev' ds' → prev = prev' ∧ ds = ds' := by
  intro ds
  induction ds using List.reverseRecOn with
  | nil =>
    intro ds' hlen _ hh
    obtain rfl : ds' = [] := List.eq_nil_of_length_eq_zero hlen.symm
    exact ⟨hh, rfl⟩
  | append_singleton ds d ih =>
    intro ds' hlen hinj hh
    rcases List.eq_nil_or_concat ds' with rfl | ⟨es, e, rfl⟩
    · simp at hlen
    · rw [List.concat_eq_append] at hlen hinj hh ⊢
      -- the last links collide only if what they hash is one word
      rw [head_snoc, head_snoc] at hh
      rw [preimages_append, preimages_append] at hinj
      have hlast := hinj _ (List.mem_append_right _ List.mem_cons_self) _
        (List.mem_append_right _ List.mem_cons_self) hh
      have hlinks : (head H prev ds).length = (head H prev' es).length := by
        rw [length_head hH hp, length_head hH hp']
      obtain ⟨hhead, hword⟩ := List.append_inj hlast hlinks
      have hlen' : ds.length = es.length := by simpa using hlen
      obtain ⟨hstart, hrest⟩ := ih hlen'
        (fun m hm m' hm' => hinj m (List.mem_append_left _ hm) m' (List.mem_append_left _ hm')) hhead
      exact ⟨hstart, by rw [hrest, hword]⟩

end

end LinuxHardener.LinkedWords
