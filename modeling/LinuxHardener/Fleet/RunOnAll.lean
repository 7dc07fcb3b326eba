import LinuxHardener.Lib.Permits
import Mathlib.Algebra.BigOperators.Fin

/-
  `run_on_all`: a task for every host, so many at once as there are permits, over every
  interleaving of them.

  What a task returns is what the operation may return for its host; it may also panic.
  The permit goes back either way. The set hands the tasks over in whatever order they
  end.

  What is proved:
    1. `settles` — never more hosts are worked on than the run was asked for, or one where
       it was asked for none; no run goes on for ever, and none stops before every task
       has been handed over.
    2. `results_ordered` — however it went, the results stand in the order of the hosts:
       what the host's own task returned, or its placeholder where it panicked.

  Correspondence (Rust ↔ Lean):
    `assemble_ordered` ↔ `assembleOrdered`
    `run_on_all`       ↔ `Step`, from `World.spawned` until `Finished`; `World.results`
-/
namespace LinuxHardener.Fleet.RunOnAll

open Permits

/-- Overlays what came back onto the placeholders; an index there is no slot for is passed over. -/
def assembleOrdered {T : Type} (prefill : List T) (completed : List (Nat × T)) : List T :=
  completed.foldl (fun slots pair => slots.set pair.1 pair.2) prefill

inductive Phase (T : Type) where
  | waiting
  | running
  /-- What the task returned; nothing if it panicked. -/
  | ended (outcome : Option T)
  | joined (outcome : Option T)

def Phase.holds {T : Type} : Phase T → Bool
  | .running => true
  | _ => false

/-- How many steps the task has before it. -/
def Phase.left {T : Type} : Phase T → Nat
  | .waiting => 3
  | .running => 2
  | .ended _ => 1
  | .joined _ => 0

variable {T : Type} {n : Nat}

structure World (T : Type) (n : Nat) where
  permits : Nat
  phase : Fin n → Phase T
  completed : List (Nat × T)

def World.spawned (T : Type) (n concurrency : Nat) : World T n := ⟨max concurrency 1, fun _ => .waiting, []⟩

def World.goes (w : World T n) (i : Fin n) (p : Phase T) : World T n := { w with phase := Function.update w.phase i p }

/-- `op` says what the operation may return for a host. -/
inductive Step (op : Fin n → T → Prop) : World T n → World T n → Prop where
  | acquire {w : World T n} {i : Fin n} (h : w.phase i = .waiting) (hpermit : 0 < w.permits) :
      Step op w { w.goes i .running with permits := w.permits - 1 }
  | returns {w : World T n} {i : Fin n} {outcome : T} (h : w.phase i = .running) (hop : op i outcome) :
      Step op w { w.goes i (.ended (some outcome)) with permits := w.permits + 1 }
  | panics {w : World T n} {i : Fin n} (h : w.phase i = .running) :
      Step op w { w.goes i (.ended none) with permits := w.permits + 1 }
  | join {w : World T n} {i : Fin n} {outcome : Option T} (h : w.phase i = .ended outcome) :
      Step op w { w.goes i (.joined outcome) with completed := w.completed ++ (outcome.map fun t => (i.val, t)).toList }

def Reach (op : Fin n → T → Prop) : World T n → World T n → Prop := Relation.ReflTransGen (Step op)

/-- The set has handed over every task. -/
def Finished (w : World T n) : Prop := ∀ i, ∃ outcome, w.phase i = .joined outcome

variable {op : Fin n → T → Prop} {w w' : World T n} {concurrency : Nat}

/-! ## Permits -/

def World.pool (w : World T n) : Pool (Fin n) := ⟨w.permits, holding Phase.holds w.phase⟩

theorem pool_follows (k : Nat) : Follows k (Step op) World.pool := by
  intro w w' _ hs
  cases hs with
  | @acquire i h hpermit =>
    have hout : i ∉ w.pool.holders := by simp [World.pool, h, Phase.holds]
    have htake : Permits.Step w.pool ⟨w.permits - 1, insert i w.pool.holders⟩ := .take hpermit hout
    rw [World.pool, ← holding_enter (p := Phase.running) rfl] at htake
    exact .inr htake
  | @returns i outcome h _ =>
    have hin : i ∈ w.pool.holders := by simp [World.pool, h, Phase.holds]
    have hgive : Permits.Step w.pool ⟨w.permits + 1, w.pool.holders \ {i}⟩ := .give hin
    rw [World.pool, ← holding_leave (p := Phase.ended (some outcome)) rfl] at hgive
    exact .inr hgive
  | @panics i h =>
    have hin : i ∈ w.pool.holders := by simp [World.pool, h, Phase.holds]
    have hgive : Permits.Step w.pool ⟨w.permits + 1, w.pool.holders \ {i}⟩ := .give hin
    rw [World.pool, ← holding_leave (p := Phase.ended none) rfl] at hgive
    exact .inr hgive
  | @join i outcome h =>
    have hsame : holding Phase.holds (Function.update w.phase i (.joined outcome)) = holding Phase.holds w.phase :=
      holding_same (by rw [h]; rfl)
    exact .inl (congrArg (Pool.mk w.permits) hsame)

theorem accounted_of_reach (h : Reach op (.spawned T n concurrency) w) : Accounted (max concurrency 1) w.pool := by
  refine (pool_follows _).accounted ?_ h
  have hidle : (World.spawned T n concurrency).pool = .idle (max concurrency 1) := by
    simp [World.pool, World.spawned, Pool.idle, holding, Phase.holds]
  rw [hidle]
  exact accounted_idle _

/-! ## Every run ends -/

def World.rank (w : World T n) : Nat := ∑ i, (w.phase i).left

theorem rank_goes {i : Fin n} {p : Phase T} (h : (w.phase i).left = p.left + 1) :
    w.rank = (∑ j, (Function.update w.phase i p j).left) + 1 := by
  have hsum : ∑ j, (Function.update w.phase i p j).left = p.left + ∑ j ∈ Finset.univ.erase i, (w.phase j).left := by
    rw [← Finset.add_sum_erase _ _ (Finset.mem_univ i), Function.update_self]
    congr 1
    refine Finset.sum_congr rfl fun j hj => ?_
    rw [Function.update_of_ne (Finset.ne_of_mem_erase hj)]
  have hold : w.rank = (w.phase i).left + ∑ j ∈ Finset.univ.erase i, (w.phase j).left :=
    (Finset.add_sum_erase _ _ (Finset.mem_univ i)).symm
  omega

/-- Every step uses one up. -/
theorem Step.rank (hs : Step op w w') : w.rank = w'.rank + 1 := by
  cases hs with
  | acquire h _ => exact rank_goes (by rw [h]; rfl)
  | returns h _ => exact rank_goes (by rw [h]; rfl)
  | panics h => exact rank_goes (by rw [h]; rfl)
  | join h => exact rank_goes (by rw [h]; rfl)

/-- While a task has not been handed over, some task can take a step: if none runs, the permits
are all there. -/
theorem keeps_going (hacc : Accounted (max concurrency 1) w.pool) (hdone : ¬ Finished w) : ∃ w', Step op w w' := by
  obtain ⟨i, hi⟩ := not_forall.mp hdone
  by_cases hrun : ∃ j, w.phase j = .running
  · obtain ⟨j, hj⟩ := hrun
    exact ⟨_, .panics hj⟩
  · cases hp : w.phase i with
    | running => exact absurd ⟨i, hp⟩ hrun
    | ended outcome => exact ⟨_, .join hp⟩
    | joined outcome => exact absurd ⟨outcome, hp⟩ hi
    | waiting =>
      have hnobody : w.pool.holders = ∅ := by
        ext j
        cases hj : w.phase j with
        | running => exact absurd ⟨j, hj⟩ hrun
        | waiting => simp [World.pool, hj, Phase.holds]
        | ended _ => simp [World.pool, hj, Phase.holds]
        | joined _ => simp [World.pool, hj, Phase.holds]
      have hfree : 0 < w.permits := by
        refine hacc.free_iff.mpr ?_
        rw [hnobody, Set.ncard_empty]
        omega
      exact ⟨_, .acquire hp hfree⟩

/-- A run of so many steps has used up as many. -/
theorem rank_of_run {f : Nat → World T n} (hf : ∀ k, Step op (f k) (f (k + 1))) (k : Nat) : (f 0).rank = (f k).rank + k := by
  induction k with
  | zero => rfl
  | succ k ih =>
    rw [ih, (hf k).rank]
    omega

/-- No more hosts are worked on at once than asked for, one at least; no run goes on for ever; and
one that cannot go on has handed over every task. -/
theorem settles (h : Reach op (.spawned T n concurrency) w) :
    {i | (w.phase i).holds = true}.ncard ≤ max concurrency 1 ∧
      (∀ f : Nat → World T n, f 0 = w → ∃ k, ¬ Step op (f k) (f (k + 1))) ∧ ((∀ w', ¬ Step op w w') → Finished w) := by
  have hacc := accounted_of_reach h
  refine ⟨hacc.card_le, fun f hf => ?_, fun hstuck => ?_⟩
  · by_contra hforever
    have hall : ∀ k, Step op (f k) (f (k + 1)) := fun k => not_not.mp fun hk => hforever ⟨k, hk⟩
    have hrank := rank_of_run hall ((f 0).rank + 1)
    omega
  · by_contra hdone
    obtain ⟨w', hs⟩ := keeps_going hacc hdone
    exact hstuck w' hs

/-- One permit, two hosts, the first of them worked on. -/
def firstOfTwo : World Nat 2 := { (World.spawned Nat 2 0).goes 0 .running with permits := 0 }

theorem settles_firstOfTwo :
    {i | (firstOfTwo.phase i).holds = true}.ncard ≤ 1 ∧
      (∀ f : Nat → World Nat 2, f 0 = firstOfTwo → ∃ k, ¬ Step (fun _ _ => True) (f k) (f (k + 1))) ∧
        ((∀ w', ¬ Step (fun _ _ => True) firstOfTwo w') → Finished firstOfTwo) :=
  have hreach : Reach (fun _ _ => True) (.spawned Nat 2 0) firstOfTwo := .single (.acquire rfl Nat.one_pos)
  settles hreach

/-! ## The results -/

theorem length_assembleOrdered (completed : List (Nat × T)) (prefill : List T) :
    (assembleOrdered prefill completed).length = prefill.length := by
  induction completed generalizing prefill with
  | nil => rfl
  | cons pair completed ih =>
    have hset := ih (prefill.set pair.1 pair.2)
    rwa [List.length_set] at hset

/-- A slot nothing came back for keeps its placeholder. -/
theorem assembleOrdered_of_not_mem {completed : List (Nat × T)} {k : Nat} (h : k ∉ completed.map Prod.fst) (prefill : List T) :
    (assembleOrdered prefill completed)[k]? = prefill[k]? := by
  induction completed generalizing prefill with
  | nil => rfl
  | cons pair completed ih =>
    obtain ⟨hne, hrest⟩ := not_or.mp fun hmem => h (List.mem_cons.mpr hmem)
    have hset := ih hrest (prefill.set pair.1 pair.2)
    rwa [List.getElem?_set_ne (Ne.symm hne)] at hset

/-- A slot one result came back for has that result. -/
theorem assembleOrdered_of_mem {completed : List (Nat × T)} (hn : (completed.map Prod.fst).Nodup) {k : Nat} {t : T}
    (h : (k, t) ∈ completed) {prefill : List T} (hk : k < prefill.length) : (assembleOrdered prefill completed)[k]? = some t := by
  induction completed generalizing prefill with
  | nil => cases h
  | cons pair completed ih =>
    obtain ⟨hfirst, hrest⟩ := List.nodup_cons.mp hn
    cases h with
    | head =>
      have hset := assembleOrdered_of_not_mem hfirst (prefill.set k t)
      rwa [List.getElem?_set_self hk] at hset
    | tail _ hmem => exact ih hrest hmem (by rwa [List.length_set])

/-- What came back, and what it came back from. -/
structure Kept (op : Fin n → T → Prop) (w : World T n) : Prop where
  joined : ∀ i t, (i.val, t) ∈ w.completed ↔ w.phase i = .joined (some t)
  bound : ∀ pair ∈ w.completed, pair.1 < n
  once : (w.completed.map Prod.fst).Nodup
  returned : ∀ i t, w.phase i = .ended (some t) ∨ w.phase i = .joined (some t) → op i t

theorem kept_spawned (op : Fin n → T → Prop) (concurrency : Nat) : Kept op (.spawned T n concurrency) where
  joined := by
    intro i t
    simp [World.spawned]
  bound := fun _ h => absurd h List.not_mem_nil
  once := List.nodup_nil
  returned := by
    intro i t h
    simp [World.spawned] at h

/-- A task that goes on to a phase it has not been handed over in. -/
theorem Kept.goes (h : Kept op w) {i : Fin n} {p : Phase T} {permits : Nat} (hi : ∀ outcome, w.phase i ≠ .joined outcome)
    (hp : ∀ outcome, p ≠ .joined outcome) (hreturned : ∀ t, p = .ended (some t) → op i t) :
    Kept op { w.goes i p with permits := permits } where
  joined := by
    intro j t
    by_cases hij : j = i
    · subst hij
      have hnone : (j.val, t) ∉ w.completed := fun hmem => hi _ ((h.joined j t).mp hmem)
      simp [World.goes, hnone, hp]
    · simpa [World.goes, hij] using h.joined j t
  bound := h.bound
  once := h.once
  returned := by
    intro j t hj
    by_cases hij : j = i
    · subst hij
      simp [World.goes, hp] at hj
      exact hreturned t hj
    · exact h.returned j t (by simpa [World.goes, hij] using hj)

theorem Kept.step (h : Kept op w) (hs : Step op w w') : Kept op w' := by
  cases hs with
  | acquire hp _ => exact h.goes (by simp [hp]) (by simp) (by simp)
  | panics hp => exact h.goes (by simp [hp]) (by simp) (by simp)
  | returns hp hop =>
    refine h.goes (by simp [hp]) (by simp) fun t ht => ?_
    cases ht
    exact hop
  | @join i outcome hp =>
    have hnew : ∀ t, (i.val, t) ∉ w.completed := by
      intro t hmem
      have hjoined := (h.joined i t).mp hmem
      rw [hp] at hjoined
      cases hjoined
    refine ⟨fun j t => ?_, fun pair hmem => ?_, ?_, fun j t hj => ?_⟩
    · by_cases hij : j = i
      · subst hij
        cases outcome <;> simp [World.goes, hnew, eq_comm]
      · have hval : j.val ≠ i.val := fun heq => hij (Fin.ext heq)
        have hold := h.joined j t
        cases outcome <;> simpa [World.goes, hij, hval] using hold
    · rcases List.mem_append.mp hmem with hold | hlast
      · exact h.bound pair hold
      · cases outcome with
        | none => cases hlast
        | some t =>
          cases List.mem_singleton.mp hlast
          exact i.isLt
    · have hfresh : i.val ∉ w.completed.map Prod.fst := by
        intro hmem
        obtain ⟨⟨k, t⟩, hpair, hk⟩ := List.mem_map.mp hmem
        cases hk
        exact hnew t hpair
      cases outcome with
      | none => simpa using h.once
      | some t => simpa [List.nodup_append, hfresh] using ⟨h.once, fun a b hab heq => hfresh (heq ▸ List.mem_map_of_mem hab)⟩
    · by_cases hij : j = i
      · subst hij
        simp [World.goes] at hj
        exact h.returned j t (.inl (by rw [hp, hj]))
      · exact h.returned j t (by simpa [World.goes, hij] using hj)

theorem kept_of_reach (h : Reach op (.spawned T n concurrency) w) : Kept op w := by
  induction h with
  | refl => exact kept_spawned op concurrency
  | tail _ hs ih => exact ih.step hs

/-- What a run ends with: in every slot what the host's own task returned, or its placeholder. -/
theorem results_ordered (h : Reach op (.spawned T n concurrency) w) (hdone : Finished w) (prefill : Fin n → T) :
    ∃ outcome : Fin n → Option T, (∀ i, w.phase i = .joined (outcome i)) ∧ (∀ i t, outcome i = some t → op i t) ∧
      assembleOrdered (List.ofFn prefill) w.completed = List.ofFn fun i => (outcome i).getD (prefill i) := by
  have hkept := kept_of_reach h
  obtain ⟨outcome, houtcome⟩ := Classical.axiomOfChoice hdone
  refine ⟨outcome, houtcome, fun i t ht => hkept.returned i t (.inr (by rw [houtcome, ht])), ?_⟩
  apply List.ext_getElem?
  intro k
  by_cases hk : k < n
  · rw [List.getElem?_ofFn, dif_pos hk]
    cases hout : outcome ⟨k, hk⟩ with
    | some t =>
      have hmem : (k, t) ∈ w.completed := (hkept.joined ⟨k, hk⟩ t).mpr (by rw [houtcome, hout])
      rw [assembleOrdered_of_mem hkept.once hmem (by rwa [List.length_ofFn])]
      rfl
    | none =>
      have hnone : k ∉ w.completed.map Prod.fst := by
        intro hmem
        obtain ⟨⟨k', t⟩, hpair, rfl⟩ := List.mem_map.mp hmem
        have hjoined := (hkept.joined ⟨k', hk⟩ t).mp hpair
        rw [houtcome, hout] at hjoined
        cases hjoined
      rw [assembleOrdered_of_not_mem hnone, List.getElem?_ofFn, dif_pos hk]
      rfl
  · rw [List.getElem?_eq_none (by rw [length_assembleOrdered, List.length_ofFn]; omega),
      List.getElem?_eq_none (by rw [List.length_ofFn]; omega)]

/-- The one host there is, its task over. -/
def overWith (t : Nat) : World Nat 1 :=
  let running := { (World.spawned Nat 1 4).goes 0 .running with permits := 3 }
  let ended := { running.goes 0 (.ended (some t)) with permits := 4 }
  { ended.goes 0 (.joined (some t)) with completed := [(0, t)] }

theorem reach_overWith (t : Nat) : Reach (fun _ t' => t' = t) (.spawned Nat 1 4) (overWith t) :=
  ((Relation.ReflTransGen.single (.acquire (i := 0) rfl (by decide))).tail (.returns (i := 0) rfl rfl)).tail
    (.join (i := 0) rfl)

theorem results_ordered_overWith :
    ∃ outcome : Fin 1 → Option Nat, (∀ i, (overWith 7).phase i = .joined (outcome i)) ∧ (∀ i t, outcome i = some t → t = 7) ∧
      assembleOrdered (List.ofFn fun _ : Fin 1 => 0) (overWith 7).completed = List.ofFn fun i => (outcome i).getD 0 :=
  results_ordered (reach_overWith 7) (fun i => ⟨some 7, by rw [Subsingleton.elim i 0]; rfl⟩) fun _ => 0

end LinuxHardener.Fleet.RunOnAll
