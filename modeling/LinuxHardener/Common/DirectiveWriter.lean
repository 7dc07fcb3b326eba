import LinuxHardener.Common.FileUtils

/-
  What `setConfigDirective` changes.

  Up to blanks at the ends of lines, the file's lines are kept, and one line is put in
  place of a line of the directive, or between two lines. What is proved:
    1. `scan_spec`, `scan_extra` — the scan finds the first live and the first commented line
       of the directive above the first live `Match` line, its further live lines there, and
       that line.
    2. `setConfigDirective_edits` — the edit as a whole.
-/
namespace LinuxHardener.Common

open Text hiding trim
open LineText

/-! ## Trimmed lines -/

/-- Two texts with the same lines, up to blanks at their ends. -/
def SameLines (s t : Chars) : Prop := (splitInclusive s).map trim = (splitInclusive t).map trim

theorem map_trim_lines (s : Chars) : (lines s).map trim = (splitInclusive s).map trim := by
  unfold lines
  rw [List.map_map]
  exact List.map_congr_left fun l _ => trim_stripTerminator l

/-! ## Keys of lines -/

/-- The writer's classes of lines. -/
def isLive (caseSensitive : Bool) (name line : Chars) : Bool :=
  match lineKey line with
  | some (false, first) => keyMatches caseSensitive first name
  | _ => false

def isCommented (caseSensitive : Bool) (name line : Chars) : Bool :=
  match lineKey line with
  | some (true, first) => keyMatches caseSensitive first name
  | _ => false

theorem dropWhile_hash {t : Chars} (h : isComment t = false) : t.dropWhile (· == '#') = t := by
  cases t with
  | nil => rfl
  | cons c t =>
    have hc : c ≠ '#' := by
      rintro rfl
      cases h
    simp [hc]

/-- A live line's key is that of its directive. -/
theorem lineKey_live {line : Chars} (h : isComment (trim line) = false) :
    lineKey line = if (splitDirective (trim line)).1 = [] then none else some (false, (splitDirective (trim line)).1) := by
  unfold lineKey
  dsimp only
  by_cases hne : trim line = []
  · rw [if_pos hne, hne]
    rfl
  · rw [if_neg hne, dropWhile_hash h, trim_trim, h]

theorem eqIgnoreCase_nil {s : Chars} (h : eqIgnoreCase [] s = true) : s = [] := by
  unfold eqIgnoreCase at h
  have := beq_iff_eq.mp h
  simpa using this.symm

/-- The scan stops where the readers do. -/
theorem opensMatch_iff {line : Chars} :
    opensMatch line = true ↔ ∃ first, lineKey line = some (false, first) ∧ eqIgnoreCase first matchKeyword = true := by
  unfold opensMatch
  dsimp only
  cases hc : isComment (trim line) with
  | true =>
    constructor
    · intro h
      cases h
    · rintro ⟨first, hkey, _⟩
      unfold lineKey at hkey
      dsimp only at hkey
      split at hkey
      · cases hkey
      · split at hkey
        · cases hkey
        · rw [hc] at hkey
          cases hkey
  | false =>
    rw [lineKey_live hc, Bool.not_false, Bool.true_and]
    constructor
    · intro h
      have hne : (splitDirective (trim line)).1 ≠ [] := by
        intro he
        rw [he] at h
        exact absurd (eqIgnoreCase_nil h) (by decide)
      exact ⟨_, if_neg hne, h⟩
    · rintro ⟨first, hkey, h⟩
      split at hkey
      · cases hkey
      · cases hkey
        exact h

/-! ## The scan -/

/-- Where the first element with a property stands. -/
def firstIndex (p : Chars → Bool) (ls : List Chars) (index : Nat) : Option Nat :=
  match ls with
  | [] => none
  | l :: ls => if p l then some index else firstIndex p ls (index + 1)

theorem firstIndex_some {p : Chars → Bool} {ls : List Chars} {index i : Nat} (h : firstIndex p ls index = some i) :
    ∃ a x b, ls = a ++ x :: b ∧ i = index + a.length ∧ p x = true ∧ ∀ y ∈ a, p y = false := by
  induction ls generalizing index with
  | nil => cases h
  | cons l ls ih =>
    rw [firstIndex] at h
    split at h
    · next hp =>
      cases h
      exact ⟨[], l, ls, rfl, rfl, hp, by simp⟩
    · next hp =>
      obtain ⟨a, x, b, rfl, rfl, hx, ha⟩ := ih h
      refine ⟨l :: a, x, b, rfl, by simp; omega, hx, ?_⟩
      intro y hy
      rcases List.mem_cons.mp hy with rfl | hy
      · simpa using hp
      · exact ha y hy

theorem firstIndex_none {p : Chars → Bool} {ls : List Chars} {index : Nat} (h : firstIndex p ls index = none) :
    ∀ y ∈ ls, p y = false := by
  induction ls generalizing index with
  | nil => simp
  | cons l ls ih =>
    rw [firstIndex] at h
    split at h
    · cases h
    · next hp =>
      intro y hy
      rcases List.mem_cons.mp hy with rfl | hy
      · simpa using hp
      · exact ih h y hy

/-- What the scan makes of a line above the first live `Match` line. -/
def Occurrences.note (seen : Occurrences) (caseSensitive : Bool) (name line : Chars) (index : Nat) : Occurrences :=
  if isLive caseSensitive name line then
    match seen.live with
    | none => { seen with live := some index }
    | some _ => { seen with extra := seen.extra ++ [index] }
  else if isCommented caseSensitive name line then { seen with commented := seen.commented.or (some index) }
  else seen

theorem scan_cons (caseSensitive : Bool) (name l : Chars) (ls : List Chars) (index : Nat) (seen : Occurrences) :
    scan caseSensitive name (l :: ls) index seen =
      if opensMatch l then { seen with boundary := some index }
      else scan caseSensitive name ls (index + 1) (seen.note caseSensitive name l index) := by
  rw [scan]
  cases hk : lineKey l with
  | none =>
    have hm : opensMatch l = false := by
      by_contra hm
      obtain ⟨_, hkey, _⟩ := opensMatch_iff.mp (Bool.not_eq_false _ ▸ hm)
      rw [hk] at hkey
      cases hkey
    simp [hm, Occurrences.note, isLive, isCommented, hk]
  | some key =>
    obtain ⟨comment, first⟩ := key
    have hm : opensMatch l = (!comment && eqIgnoreCase first matchKeyword) := by
      rw [Bool.eq_iff_iff, opensMatch_iff, hk]
      cases comment <;> simp
    rw [hm]
    unfold Occurrences.note
    cases hmatch : !comment && eqIgnoreCase first matchKeyword with
    | true => simp [hmatch]
    | false =>
      cases hkey : keyMatches caseSensitive first name with
      | false => cases comment <;> simp_all [isLive, isCommented]
      | true =>
        cases comment with
        | true => simp [isLive, isCommented, hk, hkey]
        | false => cases hlive : seen.live <;> simp_all [isLive]

/-- Where the elements with a property stand. -/
def indicesOf (p : Chars → Bool) : List Chars → Nat → List Nat
  | [], _ => []
  | l :: ls, index => if p l then index :: indicesOf p ls (index + 1) else indicesOf p ls (index + 1)

/-- What the scan finds, up to the first live `Match` line. -/
theorem scan_spec (caseSensitive : Bool) (name : Chars) (ls : List Chars) (index : Nat) (seen : Occurrences)
    (hb : seen.boundary = none) :
    let above := ls.takeWhile (fun l => !opensMatch l)
    let found := scan caseSensitive name ls index seen
    found.live = seen.live.or (firstIndex (isLive caseSensitive name) above index) ∧
      found.commented = seen.commented.or (firstIndex (isCommented caseSensitive name) above index) ∧
      found.boundary = firstIndex opensMatch ls index := by
  induction ls generalizing index seen with
  | nil => simp [scan, firstIndex, hb]
  | cons l ls ih =>
    dsimp only at ih ⊢
    rw [scan_cons, List.takeWhile_cons]
    cases hm : opensMatch l with
    | true => simp [hm, firstIndex]
    | false =>
      have hnote : (seen.note caseSensitive name l index).boundary = none := by
        unfold Occurrences.note
        cases isLive caseSensitive name l <;> cases isCommented caseSensitive name l <;> cases seen.live <;> exact hb
      obtain ⟨hlive, hcommented, hboundary⟩ := ih (index + 1) _ hnote
      simp only [Bool.false_eq_true, if_false, Bool.not_false, if_true, hlive, hcommented, hboundary, firstIndex, hm]
      have hapart : isLive caseSensitive name l = true → isCommented caseSensitive name l = false := by
        unfold isLive isCommented
        cases lineKey l with
        | none => simp
        | some key => obtain ⟨comment, first⟩ := key; cases comment <;> simp
      unfold Occurrences.note
      cases hl : isLive caseSensitive name l with
      | true =>
        rw [hapart hl]
        cases seen.live <;> simp
      | false => cases hc : isCommented caseSensitive name l <;> simp

/-- The further live lines it finds. -/
theorem scan_extra (caseSensitive : Bool) (name : Chars) (ls : List Chars) (index : Nat) (seen : Occurrences) :
    let found := indicesOf (isLive caseSensitive name) (ls.takeWhile (fun l => !opensMatch l)) index
    (scan caseSensitive name ls index seen).extra = seen.extra ++ (if seen.live.isSome then found else found.tail) := by
  induction ls generalizing index seen with
  | nil => simp [scan, indicesOf]
  | cons l ls ih =>
    dsimp only at ih ⊢
    rw [scan_cons, List.takeWhile_cons]
    cases hm : opensMatch l with
    | true => simp [indicesOf]
    | false =>
      simp only [Bool.false_eq_true, if_false, Bool.not_false, if_true, ih, indicesOf]
      unfold Occurrences.note
      cases hl : isLive caseSensitive name l with
      | true => cases hlive : seen.live <;> simp [hlive]
      | false => cases hc : isCommented caseSensitive name l <;> cases hlive : seen.live <;> simp [hlive]

/-! ## The edit -/

/-- Erasing where a property holds, from the last such place to the first. -/
theorem foldl_eraseIdx (p : Chars → Bool) (front ls back : List Chars) :
    (indicesOf p ls front.length).reverse.foldl List.eraseIdx (front ++ ls ++ back) =
      front ++ ls.filter (fun l => !p l) ++ back := by
  induction ls generalizing front with
  | nil => simp [indicesOf]
  | cons l ls ih =>
    have hih := ih (front ++ [l])
    rw [List.length_append, List.length_singleton] at hih
    rw [indicesOf]
    cases hp : p l with
    | true =>
      rw [if_pos rfl, List.reverse_cons, List.foldl_append]
      have happ : front ++ l :: ls ++ back = front ++ [l] ++ ls ++ back := by simp
      rw [happ, hih]
      simp [List.eraseIdx_append_of_length_le, hp]
    | false =>
      rw [if_neg (by simp)]
      have happ : front ++ l :: ls ++ back = front ++ [l] ++ ls ++ back := by simp
      rw [happ, hih]
      simp [hp]

/-- The later live lines of the directive, as the caller wants them. -/
def laterLines (caseSensitive : Bool) (name : Chars) : Duplicates → List Chars → List Chars
  | .keep, ls => ls
  | .remove, ls => ls.filter fun l => !isLive caseSensitive name l

/-- The terminator of a line put above another. -/
def terminatorAbove (line : Chars) : Chars :=
  match lineTerminator line with
  | [] => ['\n']
  | terminator => terminator

/-- What becomes of a file's lines: `above` stands over the first live `Match` line and
`below` begins with it. -/
inductive Edit (caseSensitive : Bool) (name new : Chars) (duplicates : Duplicates) : List Chars → List Chars → Prop where
  | live {a b below : List Chars} {x : Chars} (ha : ∀ l ∈ a, isLive caseSensitive name l = false)
      (hx : isLive caseSensitive name x = true) (habove : ∀ l ∈ a ++ x :: b, opensMatch l = false)
      (hbelow : ∀ l ∈ below.head?, opensMatch l = true) :
      Edit caseSensitive name new duplicates (a ++ x :: b ++ below)
        (a ++ (new ++ lineTerminator x) :: laterLines caseSensitive name duplicates b ++ below)
  | commented {a b below : List Chars} {x : Chars} (hlive : ∀ l ∈ a ++ x :: b, isLive caseSensitive name l = false)
      (ha : ∀ l ∈ a, isCommented caseSensitive name l = false) (hx : isCommented caseSensitive name x = true)
      (habove : ∀ l ∈ a ++ x :: b, opensMatch l = false) (hbelow : ∀ l ∈ below.head?, opensMatch l = true) :
      Edit caseSensitive name new duplicates (a ++ x :: b ++ below) (a ++ (new ++ lineTerminator x) :: b ++ below)
  | inserted {above below : List Chars} {m : Chars} (hnone : ∀ l ∈ above, isLive caseSensitive name l = false)
      (habove : ∀ l ∈ above, opensMatch l = false) (hm : opensMatch m = true) :
      Edit caseSensitive name new duplicates (above ++ m :: below) (above ++ (new ++ terminatorAbove m) :: m :: below)
  | appended {above : List Chars} (hnone : ∀ l ∈ above, isLive caseSensitive name l = false)
      (habove : ∀ l ∈ above, opensMatch l = false) :
      Edit caseSensitive name new duplicates above (appendLine above new)

theorem firstIndex_eq_none {p : Chars → Bool} {ls : List Chars} {index : Nat} (h : ∀ y ∈ ls, p y = false) :
    firstIndex p ls index = none := by
  induction ls generalizing index with
  | nil => rfl
  | cons l ls ih =>
    rw [firstIndex, h l (by simp), if_neg (by simp)]
    exact ih fun y hy => h y (by simp [hy])

theorem firstIndex_append {p : Chars → Bool} {a : List Chars} (ha : ∀ y ∈ a, p y = false) (b : List Chars) (index : Nat) :
    firstIndex p (a ++ b) index = firstIndex p b (index + a.length) := by
  induction a generalizing index with
  | nil => rfl
  | cons l a ih =>
    rw [List.cons_append, firstIndex, ha l (by simp), if_neg (by simp), ih (fun y hy => ha y (by simp [hy])), List.length_cons]
    congr 1
    omega

theorem indicesOf_eq_nil {p : Chars → Bool} {ls : List Chars} {index : Nat} (h : ∀ y ∈ ls, p y = false) :
    indicesOf p ls index = [] := by
  induction ls generalizing index with
  | nil => rfl
  | cons l ls ih =>
    rw [indicesOf, h l (by simp), if_neg (by simp)]
    exact ih fun y hy => h y (by simp [hy])

theorem indicesOf_append {p : Chars → Bool} {a : List Chars} (ha : ∀ y ∈ a, p y = false) (b : List Chars) (index : Nat) :
    indicesOf p (a ++ b) index = indicesOf p b (index + a.length) := by
  induction a generalizing index with
  | nil => rfl
  | cons l a ih =>
    rw [List.cons_append, indicesOf, ha l (by simp), if_neg (by simp), ih (fun y hy => ha y (by simp [hy])), List.length_cons]
    congr 1
    omega

theorem modify_length (f : Chars → Chars) (a : List Chars) (x : Chars) (b : List Chars) :
    (a ++ x :: b).modify a.length f = a ++ f x :: b := by
  induction a with
  | nil => rfl
  | cons l a ih => simp [ih]

theorem insertIdx_length (new : Chars) (a b : List Chars) : (a ++ b).insertIdx a.length new = a ++ new :: b := by
  induction a with
  | nil => rfl
  | cons l a ih => simp [ih]

/-- The lines without the further live ones, where the caller wants them gone. -/
def keptLines : Duplicates → List Nat → List Chars → List Chars
  | .keep, _, placed => placed
  | .remove, extra, placed => extra.reverse.foldl List.eraseIdx placed

theorem setConfigDirective_eq (content name value : Chars) (format : ConfigFormat) (caseSensitive : Bool)
    (duplicates : Duplicates) :
    setConfigDirective content name value format caseSensitive duplicates =
      let ls := splitInclusive content
      let seen := scan caseSensitive name ls 0 ⟨none, none, [], none⟩
      closeLine (keptLines duplicates seen.extra (placeLine ls (newLine format name value) seen)).flatten := by
  cases duplicates <;> rfl

theorem keptLines_nil (duplicates : Duplicates) (placed : List Chars) : keptLines duplicates [] placed = placed := by
  cases duplicates <;> rfl

/-- Any file, any call: the lines are edited in one of four ways. -/
theorem setConfigDirective_edits (content name value : Chars) (format : ConfigFormat) (caseSensitive : Bool)
    (duplicates : Duplicates) :
    ∃ ls, Edit caseSensitive name (newLine format name value) duplicates (splitInclusive content) ls ∧
      setConfigDirective content name value format caseSensitive duplicates = closeLine ls.flatten := by
  rw [setConfigDirective_eq]
  dsimp only
  generalize splitInclusive content = ls
  generalize newLine format name value = new
  obtain ⟨hlive, hcommented, hboundary⟩ := scan_spec caseSensitive name ls 0 ⟨none, none, [], none⟩ rfl
  have hextra := scan_extra caseSensitive name ls 0 ⟨none, none, [], none⟩
  obtain ⟨above, below, rfl, htake, hab, hbe⟩ : ∃ above below : List Chars, ls = above ++ below ∧
      ls.takeWhile (fun l => !opensMatch l) = above ∧ (∀ l ∈ above, opensMatch l = false) ∧
      ∀ l ∈ below.head?, opensMatch l = true := by
    refine ⟨ls.takeWhile _, ls.dropWhile fun l => !opensMatch l, List.takeWhile_append_dropWhile.symm, rfl, ?_, ?_⟩
    · intro l hl
      simpa using List.mem_takeWhile_imp hl
    · intro l hl
      have := List.head?_dropWhile_not (fun l => !opensMatch l) ls
      rw [Option.mem_def.mp hl] at this
      simpa using this
  rw [htake] at hlive hcommented hextra
  generalize hseen : scan caseSensitive name (above ++ below) 0 ⟨none, none, [], none⟩ = seen at *
  simp only [Option.none_or, List.nil_append, Option.isSome_none, Bool.false_eq_true, if_false] at hlive hcommented hextra
  cases hl : firstIndex (isLive caseSensitive name) above 0 with
  | some i =>
    obtain ⟨a, x, b, rfl, rfl, hx, ha⟩ := firstIndex_some hl
    refine ⟨_, .live ha hx hab hbe, ?_⟩
    have hplace : placeLine (a ++ x :: b ++ below) new seen = a ++ [new ++ lineTerminator x] ++ b ++ below := by
      unfold placeLine
      rw [hlive, hl]
      simp only [Option.some_or, Nat.zero_add]
      rw [List.append_assoc, List.cons_append, modify_length]
      simp
    have hmore : seen.extra = indicesOf (isLive caseSensitive name) b (a ++ [new ++ lineTerminator x]).length := by
      rw [hextra, indicesOf_append ha, indicesOf, if_pos hx, List.tail_cons]
      simp
    rw [hplace, hmore]
    cases duplicates with
    | keep => simp [laterLines, keptLines]
    | remove =>
      rw [keptLines, foldl_eraseIdx]
      simp [laterLines]
  | none =>
    have hnone := firstIndex_none hl
    have hmore : seen.extra = [] := by rw [hextra, indicesOf_eq_nil hnone, List.tail_nil]
    rw [hmore, keptLines_nil]
    cases hc : firstIndex (isCommented caseSensitive name) above 0 with
    | some i =>
      obtain ⟨a, x, b, rfl, rfl, hx, ha⟩ := firstIndex_some hc
      refine ⟨_, .commented hnone ha hx hab hbe, ?_⟩
      unfold placeLine
      rw [hlive, hl, hcommented, hc]
      simp only [Option.none_or, Nat.zero_add]
      rw [List.append_assoc, List.cons_append, modify_length]
      simp
    | none =>
      cases below with
      | nil =>
        rw [List.append_nil] at hboundary hseen ⊢
        refine ⟨_, .appended hnone hab, ?_⟩
        unfold placeLine
        rw [hlive, hl, hcommented, hc, hboundary, firstIndex_eq_none hab]
        rfl
      | cons m below =>
        have hm : opensMatch m = true := hbe m rfl
        refine ⟨_, .inserted hnone hab hm, ?_⟩
        have hat : firstIndex opensMatch (above ++ m :: below) 0 = some above.length := by
          have := firstIndex_append hab (m :: below) 0
          rw [this, firstIndex, if_pos hm, Nat.zero_add]
        unfold placeLine
        rw [hlive, hl, hcommented, hc, hboundary, hat]
        simp only [Option.none_or]
        have hget : (above ++ m :: below).getD above.length [] = m := by simp [List.getD]
        rw [insertIdx_length, hget]
        rfl

end LinuxHardener.Common
