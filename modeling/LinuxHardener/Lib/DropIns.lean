import LinuxHardener.Lib.FirstBy
import Mathlib.Data.List.Induction
import Mathlib.Data.List.Sort
import Mathlib.Order.Defs.LinearOrder

/-
  Directories of named files laid over one another. Of one name the file in the first
  directory that has it counts; the files that count are run through in the order of their
  names; and of what they say of a key the last word stays.

  A run may also do more than its files say outright: `reaches` is what a file might touch,
  and `LeavesLast` is what is known of such a run all the same.
-/
namespace LinuxHardener.DropIns

section

variable {α κ : Type} [DecidableEq κ] {key : α → κ}

theorem mem_firstBy {seen : List κ} {l : List α} {a : α} :
    a ∈ firstBy key seen l ↔ key a ∉ seen ∧ l.find? (fun b => key b = key a) = some a := by
  induction l generalizing seen with
  | nil => simp [firstBy]
  | cons b l ih =>
    rw [firstBy, List.find?_cons]
    by_cases hkey : key b = key a
    · simp only [hkey, decide_true]
      split
      · next hseen =>
        rw [ih]
        exact ⟨fun h => absurd hseen h.1, fun h => absurd hseen h.1⟩
      · next hseen =>
        rw [List.mem_cons, ih]
        constructor
        · intro h
          rcases h with rfl | ⟨hn, -⟩
          · exact ⟨hseen, rfl⟩
          · exact absurd (hkey ▸ List.mem_cons_self) hn
        · exact fun h => .inl (Option.some.inj h.2).symm
    · have hne : a ≠ b := fun h => hkey (h ▸ rfl)
      simp only [hkey, decide_false]
      split
      · exact ih
      · rw [List.mem_cons, ih, List.mem_cons]
        constructor
        · exact fun h => (h.resolve_left hne).imp_left fun hn hs => hn (.inr hs)
        · exact fun h => .inr (h.imp_left fun hn hs => hs.elim (fun he => hkey he.symm) hn)

end

/-! ## The files that count -/

section

variable {ν φ : Type} [LinearOrder ν]

/-- The file of a directory under a name. -/
def fileAt (dir : List (ν × φ)) (name : ν) : Option φ := (dir.find? fun entry => entry.1 = name).map Prod.snd

/-- The file a name stands for. -/
def inForce (dirs : List (List (ν × φ))) (name : ν) : Option φ := dirs.findSome? fun dir => fileAt dir name

/-- The files that count, each with its name and in the order of the names. -/
def inOrder (dirs : List (List (ν × φ))) : List (ν × φ) := (firstBy Prod.fst [] dirs.flatten).insertionSort fun a b => a.1 ≤ b.1

variable {dirs : List (List (ν × φ))}

theorem find?_flatten (name : ν) :
    dirs.flatten.find? (fun entry => entry.1 = name) = (inForce dirs name).map fun file => (name, file) := by
  rw [List.find?_flatten, inForce]
  induction dirs with
  | nil => rfl
  | cons dir dirs ih =>
    rw [List.findSome?_cons, List.findSome?_cons, fileAt]
    cases h : dir.find? fun entry => entry.1 = name with
    | none => exact ih
    | some entry =>
      have hname : entry.1 = name := by simpa using List.find?_some h
      rw [Option.map_some, Option.map_some, ← hname]

theorem mem_inOrder {name : ν} {file : φ} : (name, file) ∈ inOrder dirs ↔ inForce dirs name = some file := by
  rw [inOrder, List.mem_insertionSort, mem_firstBy, find?_flatten]
  simp

/-- A directory made of what stands under each of its names. -/
theorem fileAt_filterMap {g : ν → Option φ} {names : List ν} {name : ν} {file : φ} :
    fileAt (names.filterMap fun n => (g n).map fun file => (n, file)) name = some file ↔ name ∈ names ∧ g name = some file := by
  induction names with
  | nil => simp [fileAt]
  | cons n names ih =>
    rw [List.filterMap_cons]
    by_cases hsame : n = name
    · subst hsame
      cases hn : g n with
      | none =>
        rw [Option.map_none]
        exact ih.trans (by simp [hn])
      | some found => simp [fileAt]
    · have hmem : name ∈ n :: names ↔ name ∈ names := by simp [Ne.symm hsame]
      cases hn : g n with
      | none => simpa [hmem] using ih
      | some found => simpa [hmem, fileAt, hsame] using ih

theorem sorted_inOrder (dirs : List (List (ν × φ))) : (inOrder dirs).Pairwise fun a b => a.1 < b.1 := by
  have hsorted : (inOrder dirs).Pairwise fun a b => a.1 ≤ b.1 := List.pairwise_insertionSort (fun a b : ν × φ => a.1 ≤ b.1) _
  have hnodup : ((inOrder dirs).map Prod.fst).Nodup :=
    (((List.perm_insertionSort _ _).map Prod.fst).nodup_iff).mpr (nodup_keys_firstBy [] dirs.flatten)
  exact hsorted.imp₂ (fun _ _ hle hne => lt_of_le_of_ne hle hne) (List.pairwise_map.mp hnodup)

end

/-! ## The last word -/

section

variable {φ κ υ : Type}

/-- The file that has the last word on a key, with its word. -/
def lastWord (sets : φ → κ → Option υ) (files : List φ) : κ → Option (φ × υ) :=
  files.foldl (fun known file key => ((sets file key).map fun value => (file, value)).or (known key)) fun _ => none

/-- What a run over files leaves each key at, as far as that is known: what the last file to reach
the key at all sets of it outright, and nothing where none reaches it. -/
structure LeavesLast (sets : φ → κ → Option υ) (reaches : φ → κ → Prop) (leaves : List φ → κ → Option υ) : Prop where
  said : ∀ {before after : List φ} {file : φ} {key : κ} {value : υ}, sets file key = some value →
    (∀ later ∈ after, ¬ reaches later key) → leaves (before ++ file :: after) key = some value
  silent : ∀ {files : List φ} {key : κ}, (∀ file ∈ files, ¬ reaches file key) → leaves files key = none

variable {sets : φ → κ → Option υ} {reaches : φ → κ → Prop} {leaves : List φ → κ → Option υ} {files : List φ} {key : κ}

theorem lastWord_concat (files : List φ) (file : φ) (key : κ) :
    lastWord sets (files ++ [file]) key = ((sets file key).map fun value => (file, value)).or (lastWord sets files key) := by
  rw [lastWord, List.foldl_append]
  rfl

theorem lastWord_append (files later : List φ) (key : κ) :
    lastWord sets (files ++ later) key = (lastWord sets later key).or (lastWord sets files key) := by
  induction later using List.reverseRecOn with
  | nil => rw [List.append_nil]; rfl
  | append_singleton later last ih => rw [← List.append_assoc, lastWord_concat, lastWord_concat, ih, Option.or_assoc]

theorem lastWord_eq_none : lastWord sets files key = none ↔ ∀ file ∈ files, sets file key = none := by
  induction files using List.reverseRecOn with
  | nil => exact ⟨fun _ _ h => absurd h List.not_mem_nil, fun _ => rfl⟩
  | append_singleton files last ih =>
    rw [lastWord_concat, Option.or_eq_none_iff, Option.map_eq_none_iff, ih]
    simp [or_imp, forall_and, and_comm]

/-- The last of a list is the one that stands out, or the last of what comes behind it. -/
theorem concat_eq_append_cons {before after : List φ} {file last : φ} (h : files ++ [last] = before ++ file :: after) :
    (after = [] ∧ file = last) ∨ ∃ rest, after = rest ++ [last] ∧ files = before ++ file :: rest := by
  induction after using List.reverseRecOn with
  | nil => exact .inl ⟨rfl, (List.singleton_inj.mp (List.append_inj' h rfl).2).symm⟩
  | append_singleton rest end' _ =>
    rw [← List.cons_append, ← List.append_assoc] at h
    obtain ⟨hrest, hsame⟩ := List.append_inj' h rfl
    exact .inr ⟨rest, by rw [List.singleton_inj.mp hsame], hrest⟩

theorem lastWord_eq_some {file : φ} {value : υ} : lastWord sets files key = some (file, value) ↔
    ∃ before after, files = before ++ file :: after ∧ sets file key = some value ∧ ∀ later ∈ after, sets later key = none := by
  induction files using List.reverseRecOn with
  | nil => simp [lastWord]
  | append_singleton files last ih =>
    rw [lastWord_concat]
    cases hlast : sets last key with
    | some word =>
      rw [Option.map_some, Option.some_or, Option.some.injEq, Prod.mk.injEq]
      constructor
      · intro ⟨hfile, hvalue⟩
        exact ⟨files, [], by rw [hfile], by rw [← hfile, ← hvalue, hlast], fun _ h => absurd h List.not_mem_nil⟩
      · intro ⟨before, after, hfiles, hsets, hafter⟩
        rcases concat_eq_append_cons hfiles with ⟨-, rfl⟩ | ⟨rest, rfl, -⟩
        · exact ⟨rfl, Option.some.inj (hlast.symm.trans hsets)⟩
        · have hnone := hafter last (List.mem_append_right _ List.mem_cons_self)
          rw [hlast] at hnone
          cases hnone
    | none =>
      rw [Option.map_none, Option.none_or, ih]
      constructor
      · intro ⟨before, after, hfiles, hsets, hafter⟩
        refine ⟨before, after ++ [last], by rw [hfiles, List.append_assoc]; rfl, hsets, fun later hlater => ?_⟩
        rcases List.mem_append.mp hlater with h | h
        · exact hafter later h
        · rw [List.mem_singleton.mp h, hlast]
      · intro ⟨before, after, hfiles, hsets, hafter⟩
        rcases concat_eq_append_cons hfiles with ⟨-, rfl⟩ | ⟨rest, rfl, hrest⟩
        · rw [hlast] at hsets
          cases hsets
        · exact ⟨before, rest, hrest, hsets, fun later h => hafter later (List.mem_append_left _ h)⟩

/-- What is known of a run that reaches less is known of one that may reach more. -/
theorem LeavesLast.mono {reaches' : φ → κ → Prop} (h : LeavesLast sets reaches leaves)
    (hle : ∀ {file key}, reaches file key → reaches' file key) : LeavesLast sets reaches' leaves where
  said hsets hafter := h.said hsets fun later hl hr => hafter later hl (hle hr)
  silent hsilent := h.silent fun file hf hr => hsilent file hf (hle hr)

/-- Where files reach only what they speak of, the last word is what a run leaves. -/
theorem leavesLast_lastWord (sets : φ → κ → Option υ) :
    LeavesLast sets (fun file key => sets file key ≠ none) fun files key => (lastWord sets files key).map Prod.snd where
  said hsets hafter := by
    rw [lastWord_eq_some.mpr ⟨_, _, rfl, hsets, fun later h => not_not.mp (hafter later h)⟩]
    rfl
  silent h := by
    rw [lastWord_eq_none.mpr fun file hf => not_not.mp (h file hf)]
    rfl

end

/-! ## Files in the order of their names -/

section

variable {ν φ κ υ : Type} [LinearOrder ν] {sets : φ → κ → Option υ} {reaches : φ → κ → Prop} {leaves : List φ → κ → Option υ}
  {named : List (ν × φ)} {tail : List φ} {key : κ}

/-- The last word among files in order: every file of a later name is silent. -/
theorem lastWord_named (hs : named.Pairwise fun a b => a.1 < b.1) {file : φ} {value : υ}
    (h : lastWord sets (named.map Prod.snd) key = some (file, value)) :
    ∃ name, (name, file) ∈ named ∧ sets file key = some value ∧ ∀ entry ∈ named, name < entry.1 → sets entry.2 key = none := by
  obtain ⟨before, after, hfiles, hsets, hafter⟩ := lastWord_eq_some.mp h
  obtain ⟨start, rest, rfl, hstart, hrest⟩ := List.map_eq_append_iff.mp hfiles
  obtain ⟨⟨name, file'⟩, later, rfl, rfl, hlater⟩ := List.map_eq_cons_iff.mp hrest
  refine ⟨name, List.mem_append_right _ List.mem_cons_self, hsets, fun entry he hlt => ?_⟩
  rcases List.mem_append.mp he with hb | hr
  · exact absurd (lt_trans hlt ((List.pairwise_append.mp hs).2.2 entry hb _ List.mem_cons_self)) (lt_irrefl _)
  · rcases List.mem_cons.mp hr with rfl | hl
    · exact absurd hlt (lt_irrefl _)
    · exact hafter entry.2 (hlater ▸ List.mem_map.mpr ⟨entry, hl, rfl⟩)

/-- A file decides a key if no file of a later name reaches it, nor one behind them all. -/
theorem LeavesLast.decided (h : LeavesLast sets reaches leaves) (hs : named.Pairwise fun a b => a.1 < b.1) {name : ν} {file : φ}
    {value : υ} (hm : (name, file) ∈ named) (hsets : sets file key = some value)
    (hlater : ∀ entry ∈ named, name < entry.1 → ¬ reaches entry.2 key) (htail : ∀ last ∈ tail, ¬ reaches last key) :
    leaves (named.map Prod.snd ++ tail) key = some value := by
  obtain ⟨before, after, rfl⟩ := List.append_of_mem hm
  have hafter : ∀ entry ∈ after, name < entry.1 := fun entry he =>
    List.rel_of_pairwise_cons (List.pairwise_append.mp hs).2.1 he
  rw [List.map_append, List.map_cons, List.append_assoc, List.cons_append]
  refine h.said hsets fun later hl => ?_
  rcases List.mem_append.mp hl with hmap | hlast
  · obtain ⟨entry, he, rfl⟩ := List.mem_map.mp hmap
    exact hlater entry (List.mem_append_right _ (List.mem_cons_of_mem _ he)) (hafter entry he)
  · exact htail later hlast

end

end LinuxHardener.DropIns
