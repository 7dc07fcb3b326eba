import LinuxHardener.Lib.LineText

/-
  Lists with their ends taken off (`str::trim_matches`, of which `str::trim` is the case of white
  space).

  What is proved:
    1. `exists_trimMatches`, `trimMatches_eq` — what is taken off, and that this says it all.
    2. `filter_trimMatches` — whatever is not taken off an end stays.
    3. `trimMatches_erase` — when taking some members off the ends leaves a list without the
       marked ones.
-/
namespace LinuxHardener.Trimmed

variable {α β : Type}

def trimMatches (p : α → Bool) (l : List α) : List α := ((l.dropWhile p).reverse.dropWhile p).reverse

/-- Neither end is one of those. -/
structure Bounded (p : α → Bool) (l : List α) : Prop where
  head : ∀ a, l.head? = some a → p a = false
  last : ∀ a, l.getLast? = some a → p a = false

theorem bounded_nil (p : α → Bool) : Bounded p [] := ⟨nofun, nofun⟩

theorem exists_dropWhile (p : α → Bool) (l : List α) :
    ∃ start, l = start ++ l.dropWhile p ∧ (∀ a ∈ start, p a = true) ∧ ∀ a, (l.dropWhile p).head? = some a → p a = false := by
  induction l with
  | nil => exact ⟨[], rfl, nofun, nofun⟩
  | cons a l ih =>
    by_cases h : p a = true
    · obtain ⟨start, hl, hstart, hhead⟩ := ih
      rw [List.dropWhile_cons_of_pos h]
      exact ⟨a :: start, congrArg (a :: ·) hl, List.forall_mem_cons.mpr ⟨h, hstart⟩, hhead⟩
    · rw [List.dropWhile_cons_of_neg h]
      refine ⟨[], rfl, nofun, fun b hb => ?_⟩
      cases hb
      exact Bool.eq_false_iff.mpr h

theorem dropWhile_append_of_all {p : α → Bool} {start : List α} (h : ∀ a ∈ start, p a = true) (l : List α) :
    (start ++ l).dropWhile p = l.dropWhile p := by
  induction start with
  | nil => rfl
  | cons a start ih =>
    rw [List.cons_append, List.dropWhile_cons_of_pos (h a List.mem_cons_self)]
    exact ih fun b hb => h b (List.mem_cons_of_mem _ hb)

theorem dropWhile_of_head {p : α → Bool} {l : List α} (h : ∀ a, l.head? = some a → p a = false) : l.dropWhile p = l := by
  cases l with
  | nil => rfl
  | cons a l => exact List.dropWhile_cons_of_neg (Bool.eq_false_iff.mp (h a rfl))

/-- What is left determines what it is left of, the ends apart. -/
theorem trimMatches_eq {p : α → Bool} {lead middle trail : List α} (hlead : ∀ a ∈ lead, p a = true)
    (htrail : ∀ a ∈ trail, p a = true) (h : Bounded p middle) : trimMatches p (lead ++ middle ++ trail) = middle := by
  have htrail' : ∀ a ∈ trail.reverse, p a = true := fun a ha => htrail a (List.mem_reverse.mp ha)
  rw [trimMatches, List.append_assoc, dropWhile_append_of_all hlead]
  cases middle with
  | nil =>
    rw [List.nil_append, ← List.append_nil trail, dropWhile_append_of_all htrail]
    rfl
  | cons a middle =>
    have hhead : ∀ b, (a :: middle ++ trail).head? = some b → p b = false := fun b hb => h.head b hb
    have hlast : ∀ b, (a :: middle).reverse.head? = some b → p b = false := by
      intro b hb
      rw [List.head?_reverse] at hb
      exact h.last b hb
    rw [dropWhile_of_head hhead, List.reverse_append, dropWhile_append_of_all htrail', dropWhile_of_head hlast, List.reverse_reverse]

theorem exists_trimMatches (p : α → Bool) (l : List α) :
    ∃ lead trail, l = lead ++ trimMatches p l ++ trail ∧ (∀ a ∈ lead, p a = true) ∧ (∀ a ∈ trail, p a = true) ∧
      Bounded p (trimMatches p l) := by
  obtain ⟨lead, hl, hlead, hhead⟩ := exists_dropWhile p l
  obtain ⟨trail, ht, htrail, hlast⟩ := exists_dropWhile p (l.dropWhile p).reverse
  have hrest : l.dropWhile p = trimMatches p l ++ trail.reverse := by
    rw [← List.reverse_reverse (l.dropWhile p), ht, List.reverse_append]
    rfl
  refine ⟨lead, trail.reverse, ?_, hlead, fun a ha => htrail a (List.mem_reverse.mp ha), ?_, ?_⟩
  · rw [List.append_assoc, ← hrest]
    exact hl
  · intro a ha
    refine hhead a ?_
    rw [hrest, List.head?_append, ha]
    rfl
  · intro a ha
    refine hlast a ?_
    rw [trimMatches, List.getLast?_reverse] at ha
    exact ha

/-- More at the ends of the same kind is taken off as well. -/
theorem trimMatches_surround {p : α → Bool} {lead trail : List α} (hlead : ∀ a ∈ lead, p a = true)
    (htrail : ∀ a ∈ trail, p a = true) (l : List α) : trimMatches p (lead ++ l ++ trail) = trimMatches p l := by
  obtain ⟨start, stop, hl, hstart, hstop, hbounded⟩ := exists_trimMatches p l
  have hwhole : lead ++ l ++ trail = (lead ++ start) ++ trimMatches p l ++ (stop ++ trail) := by
    conv_lhs => rw [hl]
    simp only [List.append_assoc]
  rw [hwhole]
  refine trimMatches_eq (fun a ha => ?_) (fun a ha => ?_) hbounded
  · exact (List.mem_append.mp ha).elim (hlead a) (hstart a)
  · exact (List.mem_append.mp ha).elim (hstop a) (htrail a)

theorem trimMatches_append {p : α → Bool} {trail : List α} (htrail : ∀ a ∈ trail, p a = true) (l : List α) :
    trimMatches p (l ++ trail) = trimMatches p l := by
  have hnone : ∀ a ∈ ([] : List α), p a = true := nofun
  exact trimMatches_surround hnone htrail l

theorem trimMatches_map (p : β → Bool) (f : α → β) (l : List α) : trimMatches p (l.map f) = (trimMatches (p ∘ f) l).map f := by
  simp only [trimMatches, List.dropWhile_map, ← List.map_reverse]

/-- Whatever is not of the kind taken off stays. -/
theorem filter_trimMatches {p q : α → Bool} (h : ∀ a, p a = true → q a = false) (l : List α) :
    (trimMatches p l).filter q = l.filter q := by
  obtain ⟨lead, trail, hl, hlead, htrail, -⟩ := exists_trimMatches p l
  have hnone {ends : List α} (hends : ∀ a ∈ ends, p a = true) : ends.filter q = [] :=
    List.filter_eq_nil_iff.mpr fun a ha => Bool.eq_false_iff.mp (h a (hends a ha))
  conv_rhs => rw [hl]
  rw [List.filter_append, List.filter_append, hnone hlead, hnone htrail, List.nil_append, List.append_nil]

/-! ## Marked members -/

/-- The marked members stand at the two ends, and what is between them begins and ends with none of
those that are taken off. -/
def MarkedEnds (p : α → Bool) (ms : List (α × Bool)) : Prop :=
  ∃ opening middle closing, ms = opening ++ middle ++ closing ∧ (∀ m ∈ opening, m.2 = true) ∧ (∀ m ∈ closing, m.2 = true) ∧
    (∀ m ∈ middle, m.2 = false) ∧ Bounded (p ∘ Prod.fst) middle

/-- The members without a mark. -/
def withoutMarks (ms : List (α × Bool)) : List α := (ms.filter fun m => !m.2).map Prod.fst

theorem withoutMarks_append (ms ns : List (α × Bool)) : withoutMarks (ms ++ ns) = withoutMarks ms ++ withoutMarks ns := by
  rw [withoutMarks, List.filter_append, List.map_append]
  rfl

theorem withoutMarks_eq_nil {ms : List (α × Bool)} : withoutMarks ms = [] ↔ ∀ m ∈ ms, m.2 = true := by
  rw [withoutMarks, List.map_eq_nil_iff, List.filter_eq_nil_iff]
  simp

theorem withoutMarks_eq_map {ms : List (α × Bool)} : withoutMarks ms = ms.map Prod.fst ↔ ∀ m ∈ ms, m.2 = false := by
  constructor
  · intro h
    have hlength : (ms.filter fun m => !m.2).length = ms.length := by
      have hlengths := congrArg List.length h
      rwa [withoutMarks, List.length_map, List.length_map] at hlengths
    rw [List.length_filter_eq_length_iff] at hlength
    simpa using hlength
  · intro h
    rw [withoutMarks, List.filter_eq_self.mpr]
    simpa using h

/-- Taking off the ends is forgetting the marked members exactly when these are the ends. -/
theorem trimMatches_erase {p : α → Bool} {ms : List (α × Bool)} (h : ∀ m ∈ ms, m.2 = true → p m.1 = true) :
    trimMatches p (ms.map Prod.fst) = withoutMarks ms ↔ MarkedEnds p ms := by
  constructor
  · intro heq
    obtain ⟨lead, trail, hms, hlead, htrail, hbounded⟩ := exists_trimMatches (p ∘ Prod.fst) ms
    rw [trimMatches_map] at heq
    set middle := trimMatches (p ∘ Prod.fst) ms with hmiddle
    -- Nothing taken off the ends is in the list without the marks, whose ends are others.
    have hends {ns : List (α × Bool)} (hns : ∀ m ∈ ns, p m.1 = true) {a : α} (ha : a ∈ withoutMarks ns) : p a = true := by
      obtain ⟨m, hm, rfl⟩ := List.mem_map.mp ha
      exact hns m (List.mem_of_mem_filter hm)
    rw [hms, withoutMarks_append, withoutMarks_append] at heq
    by_cases hempty : middle = []
    · rw [hempty, List.map_nil] at heq
      have hnil := List.append_eq_nil_iff.mp heq.symm
      have hlead' := withoutMarks_eq_nil.mp (List.append_eq_nil_iff.mp hnil.1).1
      have htrail' := withoutMarks_eq_nil.mp hnil.2
      refine ⟨lead, [], trail, ?_, hlead', htrail', nofun, bounded_nil _⟩
      rw [← hempty]
      exact hms
    · have hlead' : withoutMarks lead = [] := by
        cases hl : withoutMarks lead with
        | nil => rfl
        | cons a rest =>
          have hhead := congrArg List.head? heq
          rw [hl, List.head?_map, List.head?_eq_some_head hempty] at hhead
          have hbound := hbounded.head _ (List.head?_eq_some_head hempty)
          cases hhead
          have hend := hends hlead (hl ▸ List.mem_cons_self)
          rw [Function.comp_apply, hend] at hbound
          cases hbound
      have htrail' : withoutMarks trail = [] := by
        rcases List.eq_nil_or_concat (withoutMarks trail) with hnil | ⟨rest, a, ht⟩
        · exact hnil
        · have hlast := congrArg List.getLast? heq
          rw [ht, List.concat_eq_append, List.getLast?_append, List.getLast?_concat, List.getLast?_map, List.getLast?_eq_some_getLast hempty] at hlast
          have hbound := hbounded.last _ (List.getLast?_eq_some_getLast hempty)
          cases hlast
          have hend := hends htrail (by rw [ht, List.concat_eq_append]; exact List.mem_concat_self)
          rw [Function.comp_apply, hend] at hbound
          cases hbound
      rw [hlead', htrail', List.nil_append, List.append_nil] at heq
      exact ⟨lead, middle, trail, hms, withoutMarks_eq_nil.mp hlead', withoutMarks_eq_nil.mp htrail', withoutMarks_eq_map.mp heq.symm, hbounded⟩
  · intro hmarked
    obtain ⟨opening, middle, closing, rfl, hopening, hclosing, hmiddle, hbounded⟩ := hmarked
    have hmarks {ns : List (α × Bool)} (hsub : ∀ m ∈ ns, m ∈ opening ++ middle ++ closing) (hns : ∀ m ∈ ns, m.2 = true) :
        ∀ m ∈ ns, (p ∘ Prod.fst) m = true := fun m hm => h m (hsub m hm) (hns m hm)
    rw [trimMatches_map, trimMatches_eq (hmarks (by simp +contextual) hopening) (hmarks (by simp +contextual) hclosing) hbounded,
      withoutMarks_append, withoutMarks_append, withoutMarks_eq_nil.mpr hopening, withoutMarks_eq_nil.mpr hclosing, withoutMarks_eq_map.mpr hmiddle,
      List.nil_append, List.append_nil]

end LinuxHardener.Trimmed
