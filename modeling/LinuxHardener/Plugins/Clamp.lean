import LinuxHardener.Plugins.Strictness

/-
  A clamp never loosens.

  `clampTarget` hands an unplaceable baseline back; `tryClampTarget` is the source's own
  `clamp_target`, whose `expect` and whose index into a rank both stop the run. A list of
  ranks says which spelling of a rank this tool writes: where that spelling is also one of
  an earlier rank, it is read back as the earlier one.

  What is proved:
    1. `faithful_of_namesApart` — where no rank's own name is a spelling of an earlier
       rank, what is written is read back at its rank.
    2. `clampTarget_join` — the clamp is a join, and does not stop the run.
    3. `off_is_not_no` — a list of ranks where it loosens.
-/
namespace LinuxHardener.Plugins.Strictness

open LineText

/-- `place`, as the source indexes into the rank it found; `none` stops the run. -/
def tryPlace (s : Strictness) (value : Chars) : Option (Option (Int × Chars)) :=
  match s with
  | ranked order =>
    match order.findIdx? fun group => group.any fun spelling => eqIgnoreCase spelling value with
    | none => some none
    | some index => ((order[index]?).bind fun group => group[0]?).map fun spelling => some (Int.ofNat index, spelling)
  | s => some (s.place value)

/-- `clamp_target`; `none` stops the run. -/
def tryClampTarget (s : Strictness) (baseline : Chars) (candidate : Option Chars) : Option Chars := do
  let (baselineScore, baselineSpelling) ← (← s.tryPlace baseline)
  match candidate with
  | none => return baselineSpelling
  | some value =>
    match ← s.tryPlace value with
    | none => return baselineSpelling
    | some (score, spelling) => return if baselineScore < score then spelling else baselineSpelling

/-- The candidates, clamped one after the other. -/
def clampAll (s : Strictness) (baseline : Chars) (candidates : List (Option Chars)) : Option Chars :=
  candidates.foldlM s.tryClampTarget baseline

/-- No rank's own name is a spelling of a rank before it. -/
def NamesApart : Strictness → Prop
  | ranked order =>
    order.Pairwise fun earlier later => ∀ name ∈ later.head?, earlier.any (fun spelling => eqIgnoreCase spelling name) = false
  | _ => True

theorem eqIgnoreCase_refl (s : Chars) : eqIgnoreCase s s = true := beq_self_eq_true _

theorem faithful_of_namesApart {s : Strictness} (h : s.NamesApart) : s.Faithful := by
  intro order hs value p hp
  subst hs
  obtain ⟨index, hindex, rfl⟩ := Option.map_eq_some_iff.mp hp
  obtain ⟨hlt, hgroup, _⟩ := List.findIdx?_eq_some_iff_getElem.mp hindex
  -- The group that was found has a first spelling, which is its name.
  obtain ⟨name, names, heq⟩ : ∃ name names, order[index] = name :: names := by
    cases hg : order[index] with
    | nil => simp [hg] at hgroup
    | cons name names => exact ⟨name, names, rfl⟩
  have hname : ((order[index]?).bind List.head?).getD [] = name := by
    simp [List.getElem?_eq_getElem hlt, heq]
  rw [hname]
  have hfind : (order.findIdx? fun group => group.any fun spelling => eqIgnoreCase spelling name) = some index := by
    apply List.findIdx?_eq_some_iff_getElem.mpr
    refine ⟨hlt, ?_, ?_⟩
    · rw [heq, List.any_cons, eqIgnoreCase_refl]
      rfl
    · intro j hj
      have hearlier := List.pairwise_iff_getElem.mp h j index (by omega) hlt hj
      rw [hearlier name (by rw [heq]; rfl)]
      simp
  show (order.findIdx? fun group => group.any fun spelling => eqIgnoreCase spelling name).map _ = _
  rw [hfind, Option.map_some, hname]

/-! ## Nothing stops the run but a baseline -/

theorem tryPlace_eq (s : Strictness) (value : Chars) : s.tryPlace value = some (s.place value) := by
  cases s with
  | ranked order =>
    unfold tryPlace place
    dsimp only
    cases hfind : order.findIdx? fun group => group.any fun spelling => eqIgnoreCase spelling value with
    | none => rfl
    | some index =>
      obtain ⟨hlt, hgroup, _⟩ := List.findIdx?_eq_some_iff_getElem.mp hfind
      cases hg : order[index] with
      | nil => simp [hg] at hgroup
      | cons name names => simp [List.getElem?_eq_getElem hlt, hg]
  | _ => rfl

section

variable {s : Strictness} {baseline : Chars} {b : Int × Chars}

theorem tryClampTarget_eq (hb : s.place baseline = some b) (candidate : Option Chars) :
    s.tryClampTarget baseline candidate = some (s.clampTarget baseline candidate) := by
  unfold tryClampTarget clampTarget
  rw [tryPlace_eq, hb]
  cases candidate with
  | none => rfl
  | some value =>
    show (do match ← s.tryPlace value with
          | none => return b.2
          | some (score, spelling) => return if b.1 < score then spelling else b.2 : Option Chars) = _
    rw [tryPlace_eq]
    cases hv : s.place value with
    | none => simp [hv]
    | some p => simp [hv]

/-- A run stops on a baseline that has no place, and on nothing else. -/
theorem tryClampTarget_isSome_iff (s : Strictness) (baseline : Chars) (candidate : Option Chars) :
    (s.tryClampTarget baseline candidate).isSome ↔ (s.place baseline).isSome := by
  cases hb : s.place baseline with
  | none =>
    unfold tryClampTarget
    rw [tryPlace_eq, hb]
    simp
  | some b => simp [tryClampTarget_eq hb]

/-! ## The join -/

/-- The stricter of a score and a candidate's. -/
def join (s : Strictness) (score : Int) (candidate : Option Chars) : Int :=
  match candidate.bind s.place with
  | some c => max score c.1
  | none => score

theorem join_right_comm (s : Strictness) (c d : Option Chars) (score : Int) :
    s.join (s.join score c) d = s.join (s.join score d) c := by
  unfold join
  cases c.bind s.place with
  | none => simp
  | some p =>
    cases d.bind s.place with
    | none => simp
    | some q =>
      dsimp only
      omega

theorem score_clampTarget (hs : s.Faithful) (hb : s.place baseline = some b) (candidate : Option Chars) :
    ∃ t, s.place (s.clampTarget baseline candidate) = some t ∧ t.1 = s.join b.1 candidate := by
  obtain ⟨t, ht, _, hle, hmax⟩ := @place_clampTarget _ _ candidate hs _ hb
  refine ⟨t, ht, ?_⟩
  rcases @clampTarget_cases _ _ candidate _ hb with ⟨heq, hbound⟩ | ⟨c, hc, hlt, heq⟩
  · rw [heq, place_spelling hs hb] at ht
    cases ht
    unfold join
    cases hc : candidate.bind s.place with
    | none => rfl
    | some c =>
      have := hbound c hc
      dsimp only
      omega
  · obtain ⟨value, _, hvalue⟩ := Option.bind_eq_some_iff.mp hc
    rw [heq, place_spelling hs hvalue] at ht
    cases ht
    unfold join
    rw [hc]
    dsimp only
    omega

theorem score_clampAll (hs : s.Faithful) (candidates : List (Option Chars)) (hb : s.place baseline = some b) :
    ∃ u t, s.clampAll baseline candidates = some u ∧ s.place u = some t ∧ t.1 = candidates.foldl s.join b.1 := by
  induction candidates generalizing baseline b with
  | nil => exact ⟨baseline, b, rfl, hb, rfl⟩
  | cons c candidates ih =>
    obtain ⟨t, ht, hscore⟩ := score_clampTarget hs hb c
    obtain ⟨u, t', hu, hplace, hfold⟩ := ih ht
    refine ⟨u, t', ?_, hplace, ?_⟩
    · unfold clampAll at hu ⊢
      rw [List.foldlM_cons, tryClampTarget_eq hb]
      exact hu
    · rw [hfold, hscore, List.foldl_cons]

theorem violatedBy_eq_false {target current : Chars} {p q : Int × Chars} (hp : s.place target = some p)
    (hq : s.place current = some q) (h : p.1 ≤ q.1) : s.violatedBy target (some current) = false := by
  unfold violatedBy
  rw [hp, Option.bind_some, hq]
  dsimp only
  apply decide_eq_false
  omega

end

/-- A clamp against a baseline that has a place gives a value that has one, is violated by
neither the baseline nor the candidate, and stays when it is clamped again; candidates may
be clamped in any order. -/
theorem clampTarget_join (s : Strictness) (baseline : Chars) (candidate : Option Chars) (hs : s.NamesApart)
    (hb : (s.place baseline).isSome) :
    ∃ t, s.tryClampTarget baseline candidate = some t ∧ (s.place t).isSome ∧
      s.violatedBy baseline (some t) = false ∧
      (∀ c, candidate = some c → (s.place c).isSome → s.violatedBy c (some t) = false) ∧
      s.tryClampTarget baseline (some t) = some t ∧ s.tryClampTarget t candidate = some t ∧
      ∀ candidates candidates' : List (Option Chars), candidates.Perm candidates' →
        ∃ u u', s.clampAll baseline candidates = some u ∧ s.clampAll baseline candidates' = some u' ∧
          (s.score u).isSome ∧ s.score u = s.score u' := by
  have hfaithful := faithful_of_namesApart hs
  obtain ⟨b, hb⟩ := Option.isSome_iff_exists.mp hb
  obtain ⟨t, ht, hspelled, hle, hmax⟩ := @place_clampTarget _ _ candidate hfaithful _ hb
  refine ⟨_, tryClampTarget_eq hb candidate, by rw [ht]; rfl, violatedBy_eq_false hb ht hle, ?_, ?_, ?_, ?_⟩
  · intro c hc hplaced
    obtain ⟨p, hp⟩ := Option.isSome_iff_exists.mp hplaced
    apply violatedBy_eq_false hp ht
    apply hmax p
    rw [hc]
    exact hp
  · rw [tryClampTarget_eq hb, clampTarget_idem hfaithful hb]
  · rw [tryClampTarget_eq ht]
    rcases @clampTarget_cases _ _ candidate _ ht with ⟨heq, _⟩ | ⟨c, hc, hlt, _⟩
    · rw [heq, hspelled]
    · have := hmax c hc
      omega
  · intro cs cs' hperm
    obtain ⟨u, p, hu, hp, hfold⟩ := score_clampAll hfaithful cs hb
    obtain ⟨u', p', hu', hp', hfold'⟩ := score_clampAll hfaithful cs' hb
    refine ⟨u, u', hu, hu', ?_, ?_⟩
    · simp [score, hp]
    · have hjoin := hperm.foldl_eq' (fun x _ y _ z => join_right_comm s x y z) b.1
      simp [score, hp, hp', hfold, hfold', hjoin]

theorem clampTarget_join_rpFilter :
    (ranked [["0".toList], ["2".toList], ["1".toList]]).NamesApart ∧
      ∃ t, (ranked [["0".toList], ["2".toList], ["1".toList]]).tryClampTarget "2".toList (some "1".toList) = some t := by
  have hapart : (ranked [["0".toList], ["2".toList], ["1".toList]]).NamesApart := by
    unfold NamesApart
    decide
  obtain ⟨t, ht, _⟩ := clampTarget_join (ranked [["0".toList], ["2".toList], ["1".toList]]) "2".toList (some "1".toList)
    hapart (by decide)
  exact ⟨hapart, t, ht⟩

/-- The rank of `off` is written `no`, which is also how the rank below it is spelled. -/
def offIsNo : Strictness := ranked [["yes".toList, "no".toList], ["no".toList, "off".toList]]

theorem off_is_not_no :
    (offIsNo.place "off".toList).isSome ∧ offIsNo.tryClampTarget "off".toList none = some "no".toList ∧
      offIsNo.violatedBy "off".toList (some "no".toList) = true := by
  refine ⟨?_, ?_, ?_⟩ <;> decide

end LinuxHardener.Plugins.Strictness
