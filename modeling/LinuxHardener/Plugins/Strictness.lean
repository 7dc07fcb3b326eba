import LinuxHardener.Plugins.Session

/-
  How a configuration value is judged against a baseline.

  Correspondence (Rust ↔ Lean):
    `Strictness::{place, clamp_target, violated_by, resolved_target}` ↔ `Strictness.{place, clampTarget, violatedBy, resolvedTarget}`
    `PluginConfig::{resolve_str, matching_exception}` ↔ `PluginConfig.{resolveStr, matchingException}`

  `clamp_target` and `violated_by` panic on a baseline their own comparison cannot place;
  here such a baseline is handed back, and nothing is weaker than it.

  What is proved:
    1. `place_clampTarget` — a clamp is spelled so that the comparison reads it back, and
       it is no weaker than either of the two.
    2. `clampTarget_idem` — what a clamp has given, it gives again.
-/
namespace LinuxHardener.Plugins

open LineText

namespace PluginConfig

/-- The operator's directive for the key, or else the plugin's own value. -/
def resolveStr (config : PluginConfig) (key baseline : Chars) : Chars := (config.directives key).getD baseline

/-- A valid exception that documents the value the host has. -/
def matchingException (config : PluginConfig) (key actual : Chars) : Option PolicyException :=
  (config.hasValidException key).filter fun e => e.value == actual

end PluginConfig

/-- The direction in which one value is stricter than another. -/
inductive Strictness where
  | atMost
  | atLeast
  | nonZeroAtMost
  | ranked (order : List (List Chars))
  deriving DecidableEq, Repr

namespace Strictness

def saturatingNeg (n : Int) : Int := if n = i64Min then i64Max else -n

/-- Where a value sits, higher being stricter, and how this tool spells it. -/
def place (s : Strictness) (value : Chars) : Option (Int × Chars) :=
  match s with
  | ranked order =>
    (order.findIdx? fun group => group.any fun spelling => eqIgnoreCase spelling value).map fun index =>
      (Int.ofNat index, ((order[index]?).bind List.head?).getD [])
  | atLeast => (parseI64 value).map fun n => (n, signed n)
  | atMost => (parseI64 value).map fun n => (saturatingNeg n, signed n)
  | nonZeroAtMost => (parseI64 value).map fun n => (if n = 0 then i64Min else saturatingNeg n, signed n)

/-- The stricter of the two, as this tool spells it. -/
def clampTarget (s : Strictness) (baseline : Chars) (candidate : Option Chars) : Chars :=
  match s.place baseline with
  | none => baseline
  | some (baselineScore, baselineSpelling) =>
    match candidate.bind s.place with
    | some (score, spelling) => if baselineScore < score then spelling else baselineSpelling
    | none => baselineSpelling

def resolvedTarget (s : Strictness) (config : PluginConfig) (key baseline : Chars) : Chars :=
  s.clampTarget baseline (some (config.resolveStr key baseline))

/-- The current value is weaker than the target, unset, or not to be placed. -/
def violatedBy (s : Strictness) (target : Chars) (current : Option Chars) : Bool :=
  match s.place target with
  | none => false
  | some (targetScore, _) =>
    match current.bind s.place with
    | some (score, _) => score < targetScore
    | none => true

/-- Where a value sits. -/
def score (s : Strictness) (value : Chars) : Option Int := (s.place value).map Prod.fst

/-- The comparison reads what it spells. A list of ranks does where no group's first
spelling occurs in a group before it. -/
def Faithful (s : Strictness) : Prop :=
  ∀ order, s = ranked order → ∀ value, ∀ p ∈ (ranked order).place value, (ranked order).place p.2 = some p

/-- The spelling places as the value does. -/
theorem place_spelling {s : Strictness} (hs : s.Faithful) {value : Chars} {p : Int × Chars} (h : s.place value = some p) :
    s.place p.2 = some p := by
  cases s with
  | ranked order => exact hs order rfl value p h
  | atLeast =>
    obtain ⟨n, hn, rfl⟩ := Option.map_eq_some_iff.mp h
    simp only [place, parseI64_signed (parseI64_bounds hn), Option.map_some]
  | atMost =>
    obtain ⟨n, hn, rfl⟩ := Option.map_eq_some_iff.mp h
    simp only [place, parseI64_signed (parseI64_bounds hn), Option.map_some]
  | nonZeroAtMost =>
    obtain ⟨n, hn, rfl⟩ := Option.map_eq_some_iff.mp h
    simp only [place, parseI64_signed (parseI64_bounds hn), Option.map_some]

section

variable {s : Strictness} {baseline : Chars} {candidate : Option Chars}

/-- A clamp is the baseline or the candidate, spelled out. -/
theorem clampTarget_cases {b : Int × Chars} (hb : s.place baseline = some b) :
    (s.clampTarget baseline candidate = b.2 ∧ ∀ c, candidate.bind s.place = some c → c.1 ≤ b.1) ∨
      ∃ c, candidate.bind s.place = some c ∧ b.1 < c.1 ∧ s.clampTarget baseline candidate = c.2 := by
  unfold clampTarget
  rw [hb]
  dsimp only
  cases hc : candidate.bind s.place with
  | none => exact .inl ⟨rfl, fun c h => by cases h⟩
  | some c =>
    dsimp only
    by_cases hlt : b.1 < c.1
    · rw [if_pos hlt]
      exact .inr ⟨c, rfl, hlt, rfl⟩
    · rw [if_neg hlt]
      refine .inl ⟨rfl, fun c' h => ?_⟩
      cases h
      omega

/-- A clamp is read back, and scores no less than the baseline and the candidate. -/
theorem place_clampTarget (hs : s.Faithful) {b : Int × Chars} (hb : s.place baseline = some b) :
    ∃ t, s.place (s.clampTarget baseline candidate) = some t ∧ t.2 = s.clampTarget baseline candidate ∧ b.1 ≤ t.1 ∧
      ∀ c, candidate.bind s.place = some c → c.1 ≤ t.1 := by
  rcases @clampTarget_cases _ _ candidate _ hb with ⟨heq, hle⟩ | ⟨c, hc, hlt, heq⟩
  · rw [heq]
    exact ⟨b, place_spelling hs hb, rfl, Int.le_refl _, hle⟩
  · rw [heq]
    have hplace : s.place c.2 = some c := by
      obtain ⟨value, _, hvalue⟩ := Option.bind_eq_some_iff.mp hc
      exact place_spelling hs hvalue
    refine ⟨c, hplace, rfl, Int.le_of_lt hlt, fun c' hc' => ?_⟩
    rw [hc] at hc'
    cases hc'
    exact Int.le_refl _

/-- Clamped against what it gave, a clamp gives it again. -/
theorem clampTarget_idem (hs : s.Faithful) {b : Int × Chars} (hb : s.place baseline = some b) :
    s.clampTarget baseline (some (s.clampTarget baseline candidate)) = s.clampTarget baseline candidate := by
  obtain ⟨t, ht, hspelled, hle, _⟩ := @place_clampTarget _ _ candidate hs _ hb
  have hplaced : (some (s.clampTarget baseline candidate)).bind s.place = some t := ht
  rcases @clampTarget_cases _ _ (some (s.clampTarget baseline candidate)) _ hb with ⟨heq, hmax⟩ | ⟨c, hc, _, heq⟩
  · rcases @clampTarget_cases _ _ candidate _ hb with ⟨heq', _⟩ | ⟨c, hc, hlt, heq'⟩
    · rw [heq, heq']
    · -- A candidate that won is read back at its own score, above the baseline's.
      exfalso
      have hread : s.place c.2 = some c := by
        obtain ⟨value, _, hvalue⟩ := Option.bind_eq_some_iff.mp hc
        exact place_spelling hs hvalue
      rw [heq', hread] at ht
      cases ht
      have := hmax _ (heq' ▸ hread)
      omega
  · rw [hplaced] at hc
    cases hc
    rw [heq, hspelled]

/-- A clamp is not violated by what it was clamped to. -/
theorem not_violatedBy_self {target : Chars} {t : Int × Chars} (ht : s.place target = some t) :
    s.violatedBy target (some target) = false := by
  unfold violatedBy
  rw [ht]
  show (match s.place target with
    | some (score, _) => decide (score < t.1)
    | none => true) = false
  rw [ht]
  exact decide_eq_false (Int.lt_irrefl t.1)

end

end Strictness

end LinuxHardener.Plugins
