import Mathlib.Logic.Relation
import Mathlib.Data.List.Nodup

/-
  Read-modify-write without a lock: any number of parties, each reading what is held, and
  later putting in its place what it makes of what it read.

  A commit is known by its place among the commits and by how many of them its party had
  seen when it read. What is proved:
    1. `held_eq` — what is held is always what the commits that count make of the start, one
       after the other: those of the last commit's line.
    2. `lost_iff` — a commit is off that line exactly if one on it, written later, had been
       read before.
-/
namespace LinuxHardener.ReadModifyWrite

variable {ι σ : Type}

structure Commit (ι : Type) where
  who : ι
  /-- How many commits its party had seen. -/
  base : Nat
  deriving DecidableEq, Repr

/-! ## The line of a commit -/

/-- The commits that what the first `n` left comes from: the last of them, and those it had seen
the effect of. -/
def line (commits : List (Commit ι)) : Nat → List Nat
  | 0 => []
  | n + 1 =>
    match commits[n]? with
    | none => []
    | some c => line commits (min c.base n) ++ [n]
  termination_by n => n
  decreasing_by omega

/-- What the line's commits make of `s`. -/
def valueAt (f : ι → σ → σ) (s : σ) (commits : List (Commit ι)) (n : Nat) : σ :=
  ((line commits n).filterMap (commits[·]?)).foldl (fun s c => f c.who s) s

variable {commits : List (Commit ι)} {n k : Nat} {c : Commit ι}

theorem line_zero : line commits 0 = [] := by rw [line]

theorem line_succ (hc : commits[n]? = some c) (hbase : c.base ≤ n) : line commits (n + 1) = line commits c.base ++ [n] := by
  rw [line, hc]
  dsimp only
  rw [Nat.min_eq_left hbase]

theorem lt_of_mem_line (h : k ∈ line commits n) : k < n := by
  induction n using Nat.strongRecOn with
  | ind n ih =>
    cases n with
    | zero =>
      rw [line_zero] at h
      cases h
    | succ n =>
      rw [line] at h
      split at h
      · cases h
      · next c _ =>
        rcases List.mem_append.mp h with hold | hlast
        · have hlt := ih (min c.base n) (by omega) hold
          omega
        · cases List.mem_singleton.mp hlast
          omega

/-- In the order in which they were written, none twice. -/
theorem pairwise_line (commits : List (Commit ι)) (n : Nat) : (line commits n).Pairwise (· < ·) := by
  induction n using Nat.strongRecOn with
  | ind n ih =>
    cases n with
    | zero =>
      rw [line_zero]
      exact .nil
    | succ n =>
      rw [line]
      split
      · exact .nil
      · next c _ =>
        refine List.pairwise_append.mpr ⟨ih _ (by omega), List.pairwise_singleton _ _, fun k hk m hm => ?_⟩
        have hlt := lt_of_mem_line hk
        cases List.mem_singleton.mp hm
        omega

/-- Later commits are not on the line of earlier ones. -/
theorem line_append (c : Commit ι) (h : n ≤ commits.length) : line (commits ++ [c]) n = line commits n := by
  induction n using Nat.strongRecOn with
  | ind n ih =>
    cases n with
    | zero => rw [line_zero, line_zero]
    | succ n =>
      rw [line, line, List.getElem?_append_left (by omega)]
      split
      · rfl
      · next c _ => rw [ih (min c.base n) (by omega) (by omega)]

theorem valueAt_append (f : ι → σ → σ) (s : σ) (c : Commit ι) (h : n ≤ commits.length) :
    valueAt f s (commits ++ [c]) n = valueAt f s commits n := by
  have hsame : (line commits n).filterMap ((commits ++ [c])[·]?) = (line commits n).filterMap (commits[·]?) := by
    refine List.filterMap_congr fun k hk => ?_
    have hlt := lt_of_mem_line hk
    exact List.getElem?_append_left (by omega)
  rw [valueAt, valueAt, line_append c h, hsame]

theorem valueAt_succ (f : ι → σ → σ) (s : σ) (hc : commits[n]? = some c) (hbase : c.base ≤ n) :
    valueAt f s commits (n + 1) = f c.who (valueAt f s commits c.base) := by
  rw [valueAt, line_succ hc hbase, List.filterMap_append, List.foldl_append, List.filterMap_cons_some hc]
  rfl

/-- No party had seen a commit of its own or of after it. -/
def Based (commits : List (Commit ι)) : Prop := ∀ n (c : Commit ι), commits[n]? = some c → c.base ≤ n

/-- The last commit is on its line. -/
theorem last_mem_line (hb : Based commits) (hc : commits[n]? = some c) : n ∈ line commits (n + 1) := by
  rw [line_succ hc (hb n c hc)]
  exact List.mem_append_right _ (List.mem_singleton_self n)

/-- Off the line is exactly what one on it, written later, had been read before. -/
theorem lost_iff (hb : Based commits) (hn : n ≤ commits.length) (hk : k < n) :
    k ∉ line commits n ↔ ∃ m ∈ line commits n, k < m ∧ ∃ c, commits[m]? = some c ∧ c.base ≤ k := by
  induction n using Nat.strongRecOn generalizing k with
  | ind n ih =>
    cases n with
    | zero => omega
    | succ n =>
      have hc : commits[n]? = some commits[n] := List.getElem?_eq_getElem (by omega)
      have hbase := hb n _ hc
      rw [line_succ hc hbase]
      by_cases hkn : k = n
      · subst hkn
        refine iff_of_false (by simp) ?_
        rintro ⟨m, hm, hlt, _⟩
        rcases List.mem_append.mp hm with hold | hlast
        · have hless := lt_of_mem_line hold
          omega
        · cases List.mem_singleton.mp hlast
          omega
      · have hlt : k < n := by omega
        by_cases hseen : k < commits[n].base
        · -- what its party had seen is on the line exactly if it was on the line then
          have hthen := ih commits[n].base (by omega) (by omega) hseen
          have hnot : k ∉ [n] := by simp [hkn]
          rw [List.mem_append, not_or, hthen]
          constructor
          · rintro ⟨⟨m, hm, hmore⟩, _⟩
            exact ⟨m, List.mem_append_left _ hm, hmore⟩
          · rintro ⟨m, hm, hkm, c, hcm, hbm⟩
            refine ⟨?_, hnot⟩
            rcases List.mem_append.mp hm with hold | hlast
            · exact ⟨m, hold, hkm, c, hcm, hbm⟩
            · cases List.mem_singleton.mp hlast
              rw [hc] at hcm
              cases hcm
              omega
        · refine iff_of_true ?_ ⟨n, List.mem_append_right _ (List.mem_singleton_self n), hlt, _, hc, by omega⟩
          intro hmem
          rcases List.mem_append.mp hmem with hold | hlast
          · have hless := lt_of_mem_line hold
            omega
          · exact hkn (List.mem_singleton.mp hlast)

/-! ## Runs -/

inductive Phase (σ : Type) where
  | ready
  | read (seen : σ) (base : Nat)
  | over

structure World (ι σ : Type) where
  held : σ
  phase : ι → Phase σ
  commits : List (Commit ι)

def World.start (ι : Type) {σ : Type} (s : σ) : World ι σ := ⟨s, fun _ => .ready, []⟩

/-- What is held and what each party has read are what their commits' lines make of the start. -/
structure Inv (may : ι → Prop) (f : ι → σ → σ) (s : σ) (w : World ι σ) : Prop where
  based : Based w.commits
  allowed : ∀ c ∈ w.commits, may c.who
  held : w.held = valueAt f s w.commits w.commits.length
  seen : ∀ i seen base, w.phase i = .read seen base → may i ∧ base ≤ w.commits.length ∧ seen = valueAt f s w.commits base

theorem inv_start (may : ι → Prop) (f : ι → σ → σ) (s : σ) : Inv may f s (.start ι s) where
  based := by
    intro n c hc
    cases hc
  allowed := by
    intro c hc
    cases hc
  held := by
    rw [valueAt, World.start, List.length_nil, line_zero]
    rfl
  seen := by
    intro i seen base h
    cases h

variable [DecidableEq ι]

/-- `may` says who may begin, and `f` what each makes of what it read. -/
inductive Step (may : ι → Prop) (f : ι → σ → σ) : World ι σ → World ι σ → Prop where
  | read {w : World ι σ} {i : ι} (h : w.phase i = .ready) (hmay : may i) :
      Step may f w { w with phase := Function.update w.phase i (.read w.held w.commits.length) }
  | write {w : World ι σ} {i : ι} {seen : σ} {base : Nat} (h : w.phase i = .read seen base) :
      Step may f w ⟨f i seen, Function.update w.phase i .over, w.commits ++ [⟨i, base⟩]⟩
  | fails {w : World ι σ} {i : ι} : Step may f w { w with phase := Function.update w.phase i .over }

def Reach (may : ι → Prop) (f : ι → σ → σ) : World ι σ → World ι σ → Prop := Relation.ReflTransGen (Step may f)

variable {may : ι → Prop} {f : ι → σ → σ} {s : σ} {w w' : World ι σ}

/-- One party goes on, and nothing is written. -/
theorem Inv.moves (hi : Inv may f s w) {i : ι} {p : Phase σ}
    (hp : ∀ seen base, p = .read seen base → may i ∧ base ≤ w.commits.length ∧ seen = valueAt f s w.commits base) :
    Inv may f s { w with phase := Function.update w.phase i p } where
  based := hi.based
  allowed := hi.allowed
  held := hi.held
  seen := by
    intro j seen base hj
    dsimp only at hj
    by_cases hij : j = i
    · subst hij
      rw [Function.update_self] at hj
      exact hp seen base hj
    · rw [Function.update_of_ne hij] at hj
      exact hi.seen j seen base hj

theorem Inv.step (hi : Inv may f s w) (hs : Step may f w w') : Inv may f s w' := by
  cases hs with
  | read _ hmay =>
    refine hi.moves fun seen base h => ?_
    cases h
    exact ⟨hmay, Nat.le_refl _, hi.held⟩
  | fails =>
    refine hi.moves fun seen base h => ?_
    cases h
  | @write i seen base h =>
    obtain ⟨hmay, hbase, hseen⟩ := hi.seen i seen base h
    have hlast : (w.commits ++ [⟨i, base⟩])[w.commits.length]? = some ⟨i, base⟩ := List.getElem?_concat_length
    have hover : Inv may f s { w with phase := Function.update w.phase i .over } := by
      refine hi.moves fun seen base h => ?_
      cases h
    refine ⟨fun n c hc => ?_, fun c hc => ?_, ?_, fun j seen' base' hj => ?_⟩
    · dsimp only at hc
      by_cases hn : n < w.commits.length
      · rw [List.getElem?_append_left hn] at hc
        exact hi.based n c hc
      · obtain ⟨hlt, -⟩ := List.getElem?_eq_some_iff.mp hc
        rw [List.length_append, List.length_singleton] at hlt
        have heq : n = w.commits.length := by omega
        subst heq
        rw [hlast] at hc
        cases hc
        exact hbase
    · rcases List.mem_append.mp hc with hold | hnew
      · exact hi.allowed c hold
      · cases List.mem_singleton.mp hnew
        exact hmay
    · dsimp only
      rw [List.length_append, List.length_singleton, valueAt_succ f s hlast hbase, valueAt_append f s _ hbase, hseen]
    · obtain ⟨hmay', hbase', hseen'⟩ := hover.seen j seen' base' hj
      refine ⟨hmay', by rw [List.length_append]; exact Nat.le_add_right_of_le hbase', ?_⟩
      rw [valueAt_append f s _ hbase', hseen']

theorem inv_of_reach (h : Reach may f (.start ι s) w) : Inv may f s w := by
  induction h with
  | refl => exact inv_start may f s
  | tail _ hs ih => exact ih.step hs

/-- What is held is what the last commit's line makes of the start. -/
theorem held_eq (h : Reach may f (.start ι s) w) : w.held = valueAt f s w.commits w.commits.length := (inv_of_reach h).held

/-- What every party's part keeps holds of what is held. -/
theorem held_induction (h : Reach may f (.start ι s) w) {P : σ → Prop} (hs : P s) (hf : ∀ i s, may i → P s → P (f i s)) : P w.held := by
  have hi := inv_of_reach h
  have hall : ∀ (l : List (Commit ι)) (s : σ), (∀ c ∈ l, may c.who) → P s → P (l.foldl (fun s c => f c.who s) s) := by
    intro l
    induction l with
    | nil => exact fun s _ hs => hs
    | cons c l ih =>
      intro s hmay hs
      exact ih _ (fun c' hc' => hmay c' (List.mem_cons_of_mem _ hc')) (hf _ _ (hmay c List.mem_cons_self) hs)
  rw [hi.held]
  refine hall _ _ (fun c hc => ?_) hs
  obtain ⟨k, -, hk⟩ := List.mem_filterMap.mp hc
  exact hi.allowed c (List.mem_of_getElem? hk)

end LinuxHardener.ReadModifyWrite
