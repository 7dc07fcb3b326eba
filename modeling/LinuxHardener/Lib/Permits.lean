import Mathlib.Data.Set.Card
import Mathlib.Logic.Function.Basic
import Mathlib.Logic.Relation

/-
  Permits: a fixed number of places, taken and given back by any number of parties.

  A flag that is tested and set in one step is a pool with one place; a counting
  semaphore is a pool with as many as it was made with.

  What is proved:
    1. `Accounted.step` — taking and giving back keep the account: the free places and
       the parties that hold one make up the places there are.
    2. `Follows.accounted` — and so does every run of a system whose steps take or give
       back at most one place: the rule a program's model is proved by.
    3. `Accounted.card_le`, `Accounted.free_iff` — there are no more holders than places,
       and a place is free exactly while there are fewer.
    4. `Accounted.exclusive`, `Accounted.flag_iff` — of a flag: no two hold it, and it is
       set exactly while one does.
-/
namespace LinuxHardener.Permits

variable {ι σ : Type*}

/-- The free places, and the parties that hold one. -/
structure Pool (ι : Type*) where
  free : Nat
  holders : Set ι

/-- Nobody holds a place yet. -/
def Pool.idle (n : Nat) : Pool ι := ⟨n, ∅⟩

inductive Step : Pool ι → Pool ι → Prop where
  | take {p : Pool ι} {i : ι} (hfree : 0 < p.free) (hi : i ∉ p.holders) : Step p ⟨p.free - 1, insert i p.holders⟩
  | give {p : Pool ι} {i : ι} (hi : i ∈ p.holders) : Step p ⟨p.free + 1, p.holders \ {i}⟩

/-- Every place is free or held by one party, and no party holds two. -/
structure Accounted (n : Nat) (p : Pool ι) : Prop where
  finite : p.holders.Finite
  total : p.free + p.holders.ncard = n

theorem accounted_idle (n : Nat) : Accounted n (.idle n : Pool ι) := by
  refine ⟨Set.finite_empty, ?_⟩
  simp [Pool.idle]

theorem Accounted.step {n : Nat} {p p' : Pool ι} (h : Accounted n p) (hs : Step p p') : Accounted n p' := by
  obtain ⟨hfinite, htotal⟩ := h
  cases hs with
  | take hfree hi =>
    refine ⟨hfinite.insert _, ?_⟩
    rw [Set.ncard_insert_of_notMem hi hfinite]
    change p.free - 1 + _ = n
    omega
  | give hi =>
    refine ⟨hfinite.sdiff, ?_⟩
    have hpos := Set.ncard_pos hfinite |>.mpr ⟨_, hi⟩
    rw [Set.ncard_sdiff_singleton_of_mem hi]
    change p.free + 1 + _ = n
    omega

theorem Accounted.card_le {n : Nat} {p : Pool ι} (h : Accounted n p) : p.holders.ncard ≤ n := by
  have := h.total
  omega

theorem Accounted.free_iff {n : Nat} {p : Pool ι} (h : Accounted n p) : 0 < p.free ↔ p.holders.ncard < n := by
  have := h.total
  omega

theorem Accounted.exclusive {p : Pool ι} (h : Accounted 1 p) {i j : ι} (hi : i ∈ p.holders) (hj : j ∈ p.holders) : i = j :=
  (Set.ncard_le_one h.finite).mp h.card_le i hi j hj

/-! ## Flags -/

/-- A flag that its holder has set. -/
def Pool.ofFlag (flag : Bool) (holders : Set ι) : Pool ι := ⟨if flag then 0 else 1, holders⟩

theorem Accounted.flag_iff {flag : Bool} {holders : Set ι} (h : Accounted 1 (.ofFlag flag holders)) :
    flag = true ↔ ∃ i, i ∈ holders := by
  have hpos : 0 < holders.ncard ↔ ∃ i, i ∈ holders := Set.ncard_pos h.finite
  have htotal : (if flag then 0 else 1) + holders.ncard = 1 := h.total
  rw [← hpos]
  cases flag with
  | false =>
    change 1 + holders.ncard = 1 at htotal
    exact ⟨nofun, fun h => by omega⟩
  | true =>
    change 0 + holders.ncard = 1 at htotal
    exact ⟨fun _ => by omega, fun _ => rfl⟩

theorem Step.set {holders : Set ι} {i : ι} (hi : i ∉ holders) : Step (.ofFlag false holders) (.ofFlag true (insert i holders)) :=
  .take Nat.one_pos hi

/-- Whoever holds the flag clears it. -/
theorem Accounted.clear {flag : Bool} {holders : Set ι} (h : Accounted 1 (.ofFlag flag holders)) {i : ι} (hi : i ∈ holders) :
    Step (.ofFlag flag holders) (.ofFlag false (holders \ {i})) := by
  have hset : flag = true := h.flag_iff.mpr ⟨i, hi⟩
  rw [hset]
  exact .give hi

/-! ## Holders by what they are at -/

section

variable {φ : Type*} {holds : φ → Bool} {phase : ι → φ} {i : ι} {p : φ}

/-- The parties whose phase is one of a holder. -/
def holding (holds : φ → Bool) (phase : ι → φ) : Set ι := {i | holds (phase i) = true}

@[simp] theorem mem_holding {i : ι} : i ∈ holding holds phase ↔ holds (phase i) = true := Iff.rfl

variable [DecidableEq ι]

theorem holding_same (h : holds (phase i) = holds p) : holding holds (Function.update phase i p) = holding holds phase := by
  ext j
  by_cases hj : j = i
  · subst hj
    simp [h]
  · simp [hj]

theorem holding_enter (h : holds p = true) : holding holds (Function.update phase i p) = insert i (holding holds phase) := by
  ext j
  by_cases hj : j = i
  · subst hj
    simp [h]
  · simp [hj]

theorem holding_leave (h : holds p = false) : holding holds (Function.update phase i p) = holding holds phase \ {i} := by
  ext j
  by_cases hj : j = i
  · subst hj
    simp [h]
  · simp [hj]

end

/-! ## Systems that take and give back places -/

/-- What a step of the system does to its pool, as long as the places are accounted for:
nothing, or one step of the pool. -/
def Follows (n : Nat) (step : σ → σ → Prop) (pool : σ → Pool ι) : Prop :=
  ∀ s s', Accounted n (pool s) → step s s' → pool s' = pool s ∨ Step (pool s) (pool s')

theorem Follows.accounted {n : Nat} {step : σ → σ → Prop} {pool : σ → Pool ι} (h : Follows n step pool) {s s' : σ}
    (hs : Accounted n (pool s)) (hr : Relation.ReflTransGen step s s') : Accounted n (pool s') := by
  induction hr with
  | refl => exact hs
  | tail _ hstep ih =>
    rcases h _ _ ih hstep with heq | hpool
    · rw [heq]
      exact ih
    · exact ih.step hpool

end LinuxHardener.Permits
