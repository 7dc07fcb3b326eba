import Mathlib.Data.List.Nodup

/-
  Maps as their entries, and configurations laid over one another.

  A map has each key once. The order of its entries stands for the order in which the map
  happens to be iterated.

  What is proved:
    1. `get_extendWith` — a key of two maps, in one laid over the other.
    2. `extendWith_assoc`, `empty_extendWith`, `extendWith_empty` — laying over is a monoid,
       and loses no key (`size_le_extendWith`).
    3. `read_foldl` — what is read of layers, where each covers those before it, is that of
       the last to say anything.
    4. `foldlM_limited` — layers that are checked one by one pass when they pass together.
-/
namespace LinuxHardener

structure KeyedMap (κ ν : Type) where
  entries : List (κ × ν)
  nodup : (entries.map Prod.fst).Nodup
  deriving DecidableEq, Repr

namespace KeyedMap

variable {κ ν : Type} [DecidableEq κ]

def empty : KeyedMap κ ν := ⟨[], List.nodup_nil⟩

def size (m : KeyedMap κ ν) : Nat := m.entries.length

def get (m : KeyedMap κ ν) (key : κ) : Option ν := (m.entries.find? fun e => e.1 = key).map Prod.snd

omit [DecidableEq κ] in
theorem ext {m n : KeyedMap κ ν} (h : m.entries = n.entries) : m = n := by
  cases m
  cases n
  congr

theorem get_eq_some {m : KeyedMap κ ν} {key : κ} {value : ν} : m.get key = some value ↔ (key, value) ∈ m.entries := by
  obtain ⟨entries, hnodup⟩ := m
  unfold get
  induction entries with
  | nil => simp
  | cons e es ih =>
    obtain ⟨k, v⟩ := e
    rw [List.map_cons, List.nodup_cons] at hnodup
    rw [List.find?_cons, List.mem_cons]
    by_cases hk : k = key
    · subst hk
      have hnot : (k, value) ∉ es := fun hmem => hnodup.1 (List.mem_map.mpr ⟨_, hmem, rfl⟩)
      simp [hnot, eq_comm]
    · have hne : (key, value) ≠ (k, v) := fun he => hk (congrArg Prod.fst he).symm
      simpa [hk, hne] using ih hnodup.2

theorem get_eq_none {m : KeyedMap κ ν} {key : κ} : m.get key = none ↔ key ∉ m.entries.map Prod.fst := by
  unfold get
  rw [Option.map_eq_none_iff, List.find?_eq_none]
  simp only [List.mem_map, decide_eq_true_eq, not_exists, not_and]

@[simp] theorem get_empty (key : κ) : (empty : KeyedMap κ ν).get key = none := rfl

/-! ## One map over another -/

/-- Keys of both take `f` of the two values, in the place they had. -/
def extendWith (f : ν → ν → ν) (m n : KeyedMap κ ν) : KeyedMap κ ν where
  entries := m.entries.map (fun e => (e.1, ((n.get e.1).map (f e.2)).getD e.2)) ++ n.entries.filter fun e => (m.get e.1).isNone
  nodup := by
    rw [List.map_append, List.map_map]
    refine List.nodup_append.mpr ⟨m.nodup, (List.filter_sublist.map Prod.fst).nodup n.nodup, fun k hk k' hk' he => ?_⟩
    obtain ⟨e, he', rfl⟩ := List.mem_map.mp hk'
    exact get_eq_none.mp (Option.isNone_iff_eq_none.mp (List.mem_filter.mp he').2) (he ▸ hk)

/-- `HashMap::extend`: the later value. -/
def extend (m n : KeyedMap κ ν) : KeyedMap κ ν := extendWith (fun _ new => new) m n

variable {f : ν → ν → ν}

theorem get_extendWith (m n : KeyedMap κ ν) (key : κ) : (m.extendWith f n).get key = Option.merge f (m.get key) (n.get key) := by
  cases hm : m.get key with
  | some v =>
    have hmem : (key, ((n.get key).map (f v)).getD v) ∈ (m.extendWith f n).entries :=
      List.mem_append_left _ (List.mem_map.mpr ⟨(key, v), get_eq_some.mp hm, rfl⟩)
    rw [get_eq_some.mpr hmem]
    cases n.get key <;> rfl
  | none =>
    cases hn : n.get key with
    | some w =>
      have hmem : (key, w) ∈ (m.extendWith f n).entries :=
        List.mem_append_right _ (List.mem_filter.mpr ⟨get_eq_some.mp hn, by rw [hm]; rfl⟩)
      exact get_eq_some.mpr hmem
    | none =>
      refine get_eq_none.mpr fun hmem => ?_
      rw [extendWith, List.map_append, List.mem_append, List.map_map] at hmem
      rcases hmem with hmem | hmem
      · exact get_eq_none.mp hm hmem
      · exact get_eq_none.mp hn ((List.filter_sublist.map Prod.fst).mem hmem)

/-- A key of one over another is what the later one has for it, or else the earlier. -/
theorem get_extend (m n : KeyedMap κ ν) (key : κ) : (m.extend n).get key = (n.get key).or (m.get key) := by
  rw [extend, get_extendWith]
  cases m.get key <;> cases n.get key <;> rfl

/-- Maps with no key in common, one after the other. -/
theorem entries_extend_of_disjoint {m n : KeyedMap κ ν} (h : ∀ e ∈ m.entries, ∀ e' ∈ n.entries, e.1 ≠ e'.1) :
    (m.extend n).entries = m.entries ++ n.entries := by
  have hm : ∀ e ∈ m.entries, (e.1, ((n.get e.1).map fun new => new).getD e.2) = e := by
    intro e he
    have hnone : n.get e.1 = none := get_eq_none.mpr fun hmem => by
      obtain ⟨e', he', heq⟩ := List.mem_map.mp hmem
      exact h e he e' he' heq.symm
    rw [hnone]
    rfl
  have hn : ∀ e ∈ n.entries, (m.get e.1).isNone = true := by
    intro e he
    rw [Option.isNone_iff_eq_none, get_eq_none]
    intro hmem
    obtain ⟨e', he', heq⟩ := List.mem_map.mp hmem
    exact h e' he' e he heq
  unfold extend extendWith
  dsimp only
  rw [List.map_congr_left hm, List.map_id'', List.filter_eq_self.mpr hn]
  exact fun _ => rfl

theorem empty_extendWith (n : KeyedMap κ ν) : empty.extendWith f n = n := by
  apply ext
  simp [extendWith, empty, get]

theorem extendWith_empty (m : KeyedMap κ ν) : m.extendWith f empty = m := by
  apply ext
  simp [extendWith, empty, get]

theorem extendWith_assoc (hf : ∀ u v w, f (f u v) w = f u (f v w)) (l m n : KeyedMap κ ν) :
    (l.extendWith f m).extendWith f n = l.extendWith f (m.extendWith f n) := by
  apply ext
  change ((l.extendWith f m).entries.map _ ++ n.entries.filter _) = l.entries.map _ ++ (m.extendWith f n).entries.filter _
  have hnone : ∀ key, ((l.extendWith f m).get key).isNone = ((m.get key).isNone && (l.get key).isNone) := by
    intro key
    rw [get_extendWith]
    cases l.get key <;> cases m.get key <;> rfl
  have hboth : ∀ e : κ × ν, ((n.get e.1).map (f (((m.get e.1).map (f e.2)).getD e.2))).getD (((m.get e.1).map (f e.2)).getD e.2) =
      (((m.extendWith f n).get e.1).map (f e.2)).getD e.2 := by
    intro e
    rw [get_extendWith]
    cases m.get e.1 with
    | none => cases n.get e.1 <;> rfl
    | some v =>
      cases n.get e.1 with
      | none => rfl
      | some w => exact hf e.2 v w
  have hmid : (m.entries.filter fun e => (l.get e.1).isNone).map (fun e => (e.1, ((n.get e.1).map (f e.2)).getD e.2)) =
      (m.entries.map fun e => (e.1, ((n.get e.1).map (f e.2)).getD e.2)).filter fun e => (l.get e.1).isNone := by
    rw [List.filter_map]
    rfl
  have hlast : (n.entries.filter fun e => ((l.extendWith f m).get e.1).isNone) =
      (n.entries.filter fun e => (m.get e.1).isNone).filter fun e => (l.get e.1).isNone := by
    rw [List.filter_filter]
    exact List.filter_congr fun e _ => (hnone e.1).trans (Bool.and_comm _ _)
  have hfirst : (l.entries.map fun e => (e.1, ((m.get e.1).map (f e.2)).getD e.2)).map
        (fun e => (e.1, ((n.get e.1).map (f e.2)).getD e.2)) =
      l.entries.map fun e => (e.1, (((m.extendWith f n).get e.1).map (f e.2)).getD e.2) := by
    rw [List.map_map]
    exact List.map_congr_left fun e _ => congrArg (Prod.mk e.1) (hboth e)
  rw [hlast]
  unfold extendWith at hfirst ⊢
  rw [List.map_append, List.filter_append, hfirst, hmid, List.append_assoc]

/-- No key is lost. -/
theorem size_le_extendWith (m n : KeyedMap κ ν) : m.size ≤ (m.extendWith f n).size ∧ n.size ≤ (m.extendWith f n).size := by
  constructor
  · unfold size extendWith
    rw [List.length_append, List.length_map]
    exact Nat.le_add_right _ _
  · have hsub : n.entries.map Prod.fst ⊆ (m.extendWith f n).entries.map Prod.fst := by
      intro key hkey
      by_contra hnot
      have hnone := get_eq_none.mpr hnot
      rw [get_extendWith] at hnone
      cases hn : n.get key with
      | none => exact get_eq_none.mp hn hkey
      | some w =>
        rw [hn] at hnone
        cases hm : m.get key <;> rw [hm] at hnone <;> cases hnone
    have hle := List.Nodup.length_le_of_subset n.nodup hsub
    rwa [List.length_map, List.length_map] at hle

/-- What holds of every value of one over another holds of both. -/
theorem forall_of_extendWith {P : ν → Prop} (hP : ∀ v w, P (f v w) → P v ∧ P w) {m n : KeyedMap κ ν}
    (h : ∀ key value, (m.extendWith f n).get key = some value → P value) :
    (∀ key value, m.get key = some value → P value) ∧ ∀ key value, n.get key = some value → P value := by
  constructor <;> intro key value hget <;> have hboth := h key <;> rw [get_extendWith, hget] at hboth
  · cases hn : n.get key <;> rw [hn] at hboth
    · exact hboth value rfl
    · exact (hP _ _ (hboth _ rfl)).1
  · cases hm : m.get key <;> rw [hm] at hboth
    · exact hboth value rfl
    · exact (hP _ _ (hboth _ rfl)).2

end KeyedMap

/-! ## Layers -/

section

variable {α β ε : Type} {op : α → α → α}

/-- Of layers, each over those before it, the last that says anything is read. -/
theorem read_foldl {read : α → Option β} (hread : ∀ a b, read (op a b) = (read b).or (read a)) (base : α) (layers : List α) :
    read (layers.foldl op base) = (layers.reverse.findSome? read).or (read base) := by
  induction layers generalizing base with
  | nil => rfl
  | cons layer layers ih =>
    rw [List.foldl_cons, ih, hread, List.reverse_cons, List.findSome?_append, Option.or_assoc]
    congr 1
    rw [List.findSome?_singleton]

/-- Layers that are checked one by one, where laying over never makes what is beyond a limit fit. -/
theorem foldlM_limited {merge : α → α → Except ε α} {within : α → Prop} (hmerge : ∀ {a b c}, merge a b = .ok c ↔ op a b = c ∧ within c)
    (hleft : ∀ a b, within (op a b) → within a) {base : α} (hbase : within base) {layers : List α} {c : α} :
    layers.foldlM merge base = .ok c ↔ layers.foldl op base = c ∧ within c := by
  have hall : ∀ (layers : List α) (base : α), within (layers.foldl op base) → within base := by
    intro layers
    induction layers with
    | nil => exact fun _ h => h
    | cons layer layers ih => exact fun base h => hleft _ _ (ih _ h)
  induction layers generalizing base with
  | nil =>
    change Except.ok base = .ok c ↔ base = c ∧ within c
    constructor
    · intro h
      cases h
      exact ⟨rfl, hbase⟩
    · exact fun h => congrArg Except.ok h.1
  | cons layer layers ih =>
    rw [List.foldlM_cons, List.foldl_cons]
    cases hm : merge base layer with
    | error e =>
      refine ⟨fun h => (by cases h), fun h => ?_⟩
      have hok := hmerge.mpr ⟨rfl, hall layers _ (h.1 ▸ h.2)⟩
      rw [hm] at hok
      cases hok
    | ok next =>
      obtain ⟨rfl, hwithin⟩ := hmerge.mp hm
      exact ih hwithin

end

end LinuxHardener
