import Mathlib.Data.List.Induction

/-
  Documents of tables in tables, edited below a path of keys.

  A table has a header of its own and its entries in their order; what is no table is a leaf. A
  key is looked up, replaced or removed where it first occurs. An edit goes down a path, makes
  the levels that are missing and fails at one that is no table.

  What is proved:
    1. `sameBeside_upsertAt`, `at_beside` — an entry set below a path leaves everything beside the
       path as it was.
    2. `prune_eq` — pruning from the innermost level outwards is `pruneDown`, from the outermost
       inwards.
    3. `removeAt_upsertAt` — an entry added and removed again leaves what was there, exactly when
       the innermost level that was there held something.
-/
namespace LinuxHardener.TableTree

/-- `η` is what a table's header says, `ν` what a leaf holds. -/
inductive Item (κ η ν : Type) where
  | leaf (value : ν)
  | table (header : η) (entries : List (κ × Item κ η ν))

abbrev Entries (κ η ν : Type) : Type := List (κ × Item κ η ν)

section

variable {κ η ν : Type} [DecidableEq κ]

def get (es : Entries κ η ν) (key : κ) : Option (Item κ η ν) :=
  match es with
  | [] => none
  | e :: es => if e.1 = key then some e.2 else get es key

def set (es : Entries κ η ν) (key : κ) (item : Item κ η ν) : Entries κ η ν :=
  match es with
  | [] => [(key, item)]
  | e :: es => if e.1 = key then (key, item) :: es else e :: set es key item

def remove (es : Entries κ η ν) (key : κ) : Entries κ η ν :=
  match es with
  | [] => []
  | e :: es => if e.1 = key then es else e :: remove es key

variable {es : Entries κ η ν} {key : κ} {item : Item κ η ν}

@[simp] theorem get_nil : get ([] : Entries κ η ν) key = none := rfl

theorem get_cons (e : κ × Item κ η ν) : get (e :: es) key = if e.1 = key then some e.2 else get es key := rfl

theorem set_cons (e : κ × Item κ η ν) : set (e :: es) key item = if e.1 = key then (key, item) :: es else e :: set es key item := rfl

theorem remove_cons (e : κ × Item κ η ν) : remove (e :: es) key = if e.1 = key then es else e :: remove es key := rfl

@[simp] theorem get_set_self : get (set es key item) key = some item := by
  induction es with
  | nil => exact if_pos rfl
  | cons e es ih =>
    rw [set_cons]
    split
    · exact if_pos rfl
    · next hne => rw [get_cons, if_neg hne, ih]

theorem get_set_ne {other : κ} (h : other ≠ key) : get (set es key item) other = get es other := by
  induction es with
  | nil => exact if_neg fun he => h he.symm
  | cons e es ih =>
    rw [set_cons, get_cons]
    split
    · next he =>
      have hne : e.1 ≠ other := fun hother => h (hother.symm.trans he)
      rw [get_cons, if_neg hne, if_neg fun hother => h hother.symm]
    · rw [get_cons, ih]

theorem set_ne_nil : set es key item ≠ [] := by
  cases es with
  | nil => exact List.cons_ne_nil _ _
  | cons e es =>
    rw [set_cons]
    split <;> exact List.cons_ne_nil _ _

@[simp] theorem set_set (item' : Item κ η ν) : set (set es key item) key item' = set es key item' := by
  induction es with
  | nil => exact if_pos rfl
  | cons e es ih =>
    by_cases he : e.1 = key
    · rw [set_cons, set_cons, if_pos he, if_pos he, set_cons, if_pos rfl]
    · rw [set_cons, set_cons, if_neg he, if_neg he, set_cons, if_neg he, ih]

/-- Setting a key to what it has changes nothing. -/
theorem set_get (h : get es key = some item) : set es key item = es := by
  induction es with
  | nil => cases h
  | cons e es ih =>
    rw [get_cons] at h
    rw [set_cons]
    split at h
    · next he => rw [if_pos he, ← Option.some.inj h, ← he]
    · next he => rw [if_neg he, ih h]

/-- Removing a key that was added leaves what was there. -/
theorem remove_set (h : get es key = none) : remove (set es key item) key = es := by
  induction es with
  | nil => exact if_pos rfl
  | cons e es ih =>
    rw [get_cons] at h
    split at h
    · cases h
    · next he => rw [set_cons, if_neg he, remove_cons, if_neg he, ih h]

theorem remove_set_self : remove (set es key item) key = remove es key := by
  induction es with
  | nil => exact if_pos rfl
  | cons e es ih =>
    by_cases he : e.1 = key
    · rw [set_cons, if_pos he, remove_cons, if_pos rfl, remove_cons, if_pos he]
    · rw [set_cons, if_neg he, remove_cons, if_neg he, ih, remove_cons, if_neg he]

theorem remove_ne_of_get (h : get es key = some item) : remove es key ≠ es := by
  induction es with
  | nil => cases h
  | cons e es ih =>
    rw [get_cons] at h
    rw [remove_cons]
    split at h
    · next he =>
      rw [if_pos he]
      exact fun heq => List.cons_ne_self e es heq.symm
    · next he =>
      rw [if_neg he]
      exact fun heq => ih h (List.cons.inj heq).2

/-! ## Down a path -/

/-- What stands at a path of keys. -/
def at? (es : Entries κ η ν) : List κ → Option (Item κ η ν)
  | [] => none
  | key :: rest =>
    if rest = [] then get es key
    else match get es key with
      | some (.table _ sub) => at? sub rest
      | _ => none

theorem at_cons {rest : List κ} (h : rest ≠ []) {header : η} {sub : Entries κ η ν} (hget : get es key = some (.table header sub)) :
    at? es (key :: rest) = at? sub rest := by
  rw [at?, if_neg h, hget]

theorem at_cons_none {rest : List κ} (hget : get es key = none) : at? es (key :: rest) = none := by
  rw [at?]
  split
  · exact hget
  · rw [hget]

theorem at_nil (path : List κ) : at? ([] : Entries κ η ν) path = none := by
  cases path with
  | nil => rfl
  | cons key rest =>
    rw [at?]
    split <;> rfl

/-- An edit of the entries at the end of a path, whose missing levels are made with the headers
given. -/
def editAt {α ε : Type} (notTable : List κ → ε) (edit : Entries κ η ν → Except ε (α × Entries κ η ν)) (above : List κ) :
    List (κ × η) → Entries κ η ν → Except ε (α × Entries κ η ν)
  | [], es => edit es
  | (key, header) :: rest, es =>
    match get es key with
    | none => (editAt notTable edit (above ++ [key]) rest []).map fun r => (r.1, set es key (.table header r.2))
    | some (.table header' sub) => (editAt notTable edit (above ++ [key]) rest sub).map fun r => (r.1, set es key (.table header' r.2))
    | some (.leaf _) => .error (notTable (above ++ [key]))

/-- A key removed, and whether that leaves nothing. -/
def removeKey {ε : Type} (key : κ) (es : Entries κ η ν) : Except ε (Bool × Entries κ η ν) :=
  .ok ((remove es key).isEmpty, remove es key)

/-- The levels of a path are removed, the innermost first, as long as that leaves nothing in the
level above. The path is given from its end. -/
def prune {ε : Type} (notTable : List κ → ε) : List (κ × η) → Entries κ η ν → Except ε (Entries κ η ν)
  | [], es => .ok es
  | (key, _) :: parents, es => do
    let r ← editAt notTable (removeKey key) [] parents.reverse es
    if r.1 then prune notTable parents r.2 else .ok r.2

/-- The same from the outermost level inwards: an emptied level is removed. -/
def pruneDown : List (κ × η) → Entries κ η ν → Entries κ η ν
  | [], es => es
  | (key, _) :: rest, es =>
    match get es key with
    | some (.table header sub) =>
      if (pruneDown rest sub).isEmpty then remove es key else set es key (.table header (pruneDown rest sub))
    | _ => es

/-- A key removed that has to be there. -/
def removePresent {ε : Type} (missing : ε) (key : κ) (es : Entries κ η ν) : Except ε (Bool × Entries κ η ν) :=
  if (get es key).isSome then removeKey key es else .error missing

/-! ## Pruning -/

/-- Every level of a path is a table, and the innermost is empty. -/
def EmptyBelow : List (κ × η) → Entries κ η ν → Prop
  | [], es => es = []
  | (key, _) :: rest, es => ∃ header sub, get es key = some (.table header sub) ∧ EmptyBelow rest sub

variable {ε : Type} {notTable : List κ → ε}

theorem pruneDown_table {header : η} {sub : Entries κ η ν} (h : get es key = some (.table header sub)) (made : η)
    (rest : List (κ × η)) : pruneDown ((key, made) :: rest) es =
      if (pruneDown rest sub).isEmpty then remove es key else set es key (.table header (pruneDown rest sub)) := by
  rw [pruneDown, h]

theorem editAt_table {α : Type} {edit : Entries κ η ν → Except ε (α × Entries κ η ν)} {header : η} {sub sub' : Entries κ η ν} {a : α}
    {above : List κ} {rest : List (κ × η)} (h : get es key = some (.table header sub))
    (hsub : editAt notTable edit (above ++ [key]) rest sub = .ok (a, sub')) (made : η) :
    editAt notTable edit above ((key, made) :: rest) es = .ok (a, set es key (.table header sub')) := by
  rw [editAt, h]
  dsimp only
  rw [hsub]
  rfl

/-- Removing the innermost level of a path, and what is left to prune. -/
theorem pruneDown_concat (notTable : List κ → ε) {ls : List (κ × η)} {leaf : κ} {made : η} (h : EmptyBelow (ls ++ [(leaf, made)]) es) :
    ∃ nowEmpty es', (∀ above, editAt notTable (removeKey leaf) above ls es = .ok (nowEmpty, es')) ∧
      (nowEmpty = true → EmptyBelow ls es' ∧ pruneDown (ls ++ [(leaf, made)]) es = pruneDown ls es') ∧
      (nowEmpty = false → es' ≠ [] ∧ pruneDown (ls ++ [(leaf, made)]) es = es') := by
  induction ls generalizing es with
  | nil =>
    obtain ⟨header, sub, hget, rfl⟩ := h
    have hdown : pruneDown [(leaf, made)] es = remove es leaf := pruneDown_table hget made []
    refine ⟨_, _, fun _ => rfl, fun hempty => ⟨List.isEmpty_iff.mp hempty, hdown⟩, fun hempty => ⟨?_, hdown⟩⟩
    exact List.isEmpty_eq_false_iff.mp hempty
  | cons level ls ih =>
    obtain ⟨key, levelMade⟩ := level
    obtain ⟨header, sub, hget, hbelow⟩ := h
    obtain ⟨nowEmpty, sub', hedit, htrue, hfalse⟩ := ih hbelow
    refine ⟨nowEmpty, set es key (.table header sub'), fun above => editAt_table hget (hedit _) levelMade, fun hempty => ?_, fun hempty => ?_⟩
    · obtain ⟨hempty', hdown⟩ := htrue hempty
      refine ⟨⟨header, sub', get_set_self, hempty'⟩, ?_⟩
      rw [List.cons_append, pruneDown_table hget, pruneDown_table get_set_self, hdown, remove_set_self, set_set]
    · obtain ⟨hne, hdown⟩ := hfalse hempty
      refine ⟨set_ne_nil, ?_⟩
      rw [List.cons_append, pruneDown_table hget, hdown, List.isEmpty_eq_false_iff.mpr hne, if_neg Bool.false_ne_true]

/-- Pruning from the innermost level outwards. -/
theorem prune_eq {path : List (κ × η)} (h : EmptyBelow path es) : prune notTable path.reverse es = .ok (pruneDown path es) := by
  induction path using List.reverseRecOn generalizing es with
  | nil => rfl
  | append_singleton ls level ih =>
    obtain ⟨leaf, made⟩ := level
    obtain ⟨nowEmpty, es', hedit, htrue, hfalse⟩ := pruneDown_concat notTable h
    rw [List.reverse_append, List.reverse_singleton, List.singleton_append, prune, List.reverse_reverse, hedit]
    cases nowEmpty with
    | true =>
      obtain ⟨hempty, hdown⟩ := htrue rfl
      rw [hdown]
      exact ih hempty
    | false =>
      rw [(hfalse rfl).2]
      rfl

/-- Two levels pruned, written out. -/
theorem prune_two (inner outer : κ × η) (es : Entries κ η ν) :
    prune notTable [inner, outer] es = (do
      let r ← editAt notTable (removeKey inner.1) [] [outer] es
      return if r.1 then remove r.2 outer.1 else r.2) := by
  obtain ⟨leaf, innerMade⟩ := inner
  obtain ⟨key, outerMade⟩ := outer
  rw [prune, List.reverse_singleton]
  cases editAt notTable (removeKey leaf) [] [(key, outerMade)] es with
  | error e => rfl
  | ok r =>
    obtain ⟨nowEmpty, es'⟩ := r
    cases nowEmpty with
    | false => rfl
    | true =>
      change (if (remove es' key).isEmpty then Except.ok (remove es' key) else Except.ok (remove es' key)) = _
      rw [ite_self]
      rfl

/-! ## Adding and removing -/

def upsertAt (notTable : List κ → ε) (path : List (κ × η)) (key : κ) (item : Item κ η ν) (es : Entries κ η ν) :
    Except ε (Entries κ η ν) :=
  (editAt notTable (fun es => .ok ((), set es key item)) [] path es).map Prod.snd

/-- A key removed below a path, and the levels of the path as far as that empties them. -/
def removeAt (notTable : List κ → ε) (missing : ε) (path : List (κ × η)) (key : κ) (es : Entries κ η ν) :
    Except ε (Entries κ η ν) := do
  let r ← editAt notTable (removePresent missing key) [] path es
  if r.1 then prune notTable path.reverse r.2 else .ok r.2

/-- The innermost level of a path that is there is empty. -/
def Bare : List (κ × η) → Entries κ η ν → Prop
  | [], es => es = []
  | (key, _) :: rest, es =>
    match get es key with
    | some (.table _ sub) => Bare rest sub
    | some (.leaf _) => False
    | none => es = []

theorem bare_nil (path : List (κ × η)) : Bare path ([] : Entries κ η ν) := by
  cases path with
  | nil => rfl
  | cons level rest => rfl

theorem bare_table {header : η} {sub : Entries κ η ν} (h : get es key = some (.table header sub)) (made : η)
    (rest : List (κ × η)) : Bare ((key, made) :: rest) es ↔ Bare rest sub := by
  rw [Bare, h]

theorem bare_none (h : get es key = none) (made : η) (rest : List (κ × η)) : Bare ((key, made) :: rest) es ↔ es = [] := by
  rw [Bare, h]

/-- No innermost level below the root that was there was empty. -/
def Roomy : List (κ × η) → Entries κ η ν → Prop
  | [], _ => True
  | (key, _) :: rest, es => ∀ header sub, get es key = some (.table header sub) → ¬ Bare rest sub

/-- What is left of entries after a removal below a path, pruned if that emptied the end of it. -/
def pruned (path : List (κ × η)) (nowEmpty : Bool) (es : Entries κ η ν) : Entries κ η ν := if nowEmpty then pruneDown path es else es

/-- What adding a key and removing it again makes of the entries `es`: `es'`, and these pruned. -/
structure Undone (path : List (κ × η)) (es : Entries κ η ν) (nowEmpty : Bool) (es' : Entries κ η ν) : Prop where
  emptied : nowEmpty = true → EmptyBelow path es'
  kept : nowEmpty = false → es' ≠ []
  same : ¬ Bare path es → pruned path nowEmpty es' = es
  changed : Bare path es → pruned path nowEmpty es' = [] ∨ pruned path nowEmpty es' ≠ es
  roomy : pruned path nowEmpty es' = es ↔ Roomy path es

theorem undone_here (es : Entries κ η ν) : Undone [] es es.isEmpty es := by
  have hpruned : pruned [] es.isEmpty es = es := by
    unfold pruned
    split <;> rfl
  exact ⟨List.isEmpty_iff.mp, List.isEmpty_eq_false_iff.mp, fun _ => hpruned, fun hbare => .inl (hpruned.trans hbare),
    fun _ => trivial, fun _ => hpruned⟩

/-- A level that was made for the addition goes with it. -/
theorem Undone.made {path : List (κ × η)} {nowEmpty : Bool} {sub : Entries κ η ν} (h : Undone path [] nowEmpty sub)
    (hget : get es key = none) (made : η) : Undone ((key, made) :: path) es nowEmpty (set es key (.table made sub)) := by
  have hroomy : Roomy path ([] : Entries κ η ν) := by
    cases path with
    | nil => trivial
    | cons level rest => exact fun _ _ hnone => by cases hnone
  have hinner := h.roomy.mpr hroomy
  have hempty : nowEmpty = true := by
    cases nowEmpty with
    | true => rfl
    | false => exact absurd hinner (h.kept rfl)
  subst hempty
  change pruneDown path sub = [] at hinner
  have hpruned : pruned ((key, made) :: path) true (set es key (.table made sub)) = es := by
    change pruneDown _ _ = _
    rw [pruneDown_table get_set_self, hinner, List.isEmpty_nil, if_pos rfl, remove_set hget]
  refine ⟨fun _ => ⟨made, sub, get_set_self, h.emptied rfl⟩, fun hfalse => (by cases hfalse), fun _ => hpruned, fun hbare => ?_,
    fun _ => ?_, fun _ => hpruned⟩
  · exact .inl (hpruned.trans ((bare_none hget made path).mp hbare))
  · intro header sub htable
    rw [hget] at htable
    cases htable

/-- A level that was there is what it was, or gone if it has nothing left. -/
theorem Undone.table {path : List (κ × η)} {nowEmpty : Bool} {header : η} {sub sub' : Entries κ η ν}
    (h : Undone path sub nowEmpty sub') (hget : get es key = some (.table header sub)) (made : η) :
    Undone ((key, made) :: path) es nowEmpty (set es key (.table header sub')) := by
  have hpruned : pruned ((key, made) :: path) nowEmpty (set es key (.table header sub')) =
      if (pruned path nowEmpty sub').isEmpty then remove es key else set es key (.table header (pruned path nowEmpty sub')) := by
    cases nowEmpty with
    | true =>
      change pruneDown _ _ = _
      rw [pruneDown_table get_set_self, remove_set_self, set_set]
      rfl
    | false =>
      change set es key (.table header sub') = if sub'.isEmpty then _ else set es key (.table header sub')
      rw [List.isEmpty_eq_false_iff.mpr (h.kept rfl), if_neg Bool.false_ne_true]
  have hsame : ¬ Bare path sub → pruned ((key, made) :: path) nowEmpty (set es key (.table header sub')) = es := by
    intro hbare
    have hne : sub ≠ [] := fun hnil => hbare (hnil ▸ bare_nil path)
    rw [hpruned, h.same hbare, List.isEmpty_eq_false_iff.mpr hne, if_neg Bool.false_ne_true, set_get hget]
  have hchanged : Bare path sub → pruned ((key, made) :: path) nowEmpty (set es key (.table header sub')) ≠ es := by
    intro hbare
    rw [hpruned]
    split
    · exact remove_ne_of_get hget
    · next hleft =>
      rcases h.changed hbare with hnil | hne
      · exact absurd (List.isEmpty_iff.mpr hnil) hleft
      · intro heq
        have hfound : get (set es key (.table header (pruned path nowEmpty sub'))) key = some (.table header sub) := by
          rw [heq, hget]
        rw [get_set_self] at hfound
        cases hfound
        exact hne rfl
  refine ⟨fun hempty => ⟨header, sub', get_set_self, h.emptied hempty⟩, fun _ => set_ne_nil, fun hbare => ?_, fun hbare => ?_,
    fun heq => ?_, fun hroomy => hsame (hroomy header sub hget)⟩
  · exact hsame fun hinner => hbare ((bare_table hget made path).mpr hinner)
  · exact .inr (hchanged ((bare_table hget made path).mp hbare))
  · intro header' sub'' htable hbare
    rw [hget] at htable
    cases htable
    exact hchanged hbare heq

/-- Where the key was not there, the removal takes what was added, and then every level that this
leaves empty. -/
theorem undone_of_added (missing : ε) {path : List (κ × η)} {above : List κ} {es' : Entries κ η ν}
    (hadd : editAt notTable (fun es => .ok ((), set es key item)) above path es = .ok ((), es'))
    (habsent : at? es (path.map Prod.fst ++ [key]) = none) :
    ∃ nowEmpty es'', (∀ above, editAt notTable (removePresent missing key) above path es' = .ok (nowEmpty, es'')) ∧
      Undone path es nowEmpty es'' := by
  induction path generalizing es above es' with
  | nil =>
    cases hadd
    have hnone : get es key = none := habsent
    refine ⟨_, _, fun above => ?_, undone_here es⟩
    rw [editAt, removePresent, get_set_self, Option.isSome_some, if_pos rfl, removeKey, remove_set hnone]
  | cons level rest ih =>
    obtain ⟨k, made⟩ := level
    have hne : rest.map Prod.fst ++ [key] ≠ [] := by simp
    rw [editAt] at hadd
    cases hget : get es k with
    | none =>
      rw [hget] at hadd
      dsimp only at hadd
      cases hsub : editAt notTable (fun es => .ok ((), set es key item)) (above ++ [k]) rest [] with
      | error e =>
        rw [hsub] at hadd
        cases hadd
      | ok r =>
        rw [hsub] at hadd
        cases hadd
        obtain ⟨nowEmpty, sub', hremove, hundone⟩ := ih hsub (at_nil _)
        refine ⟨nowEmpty, set es k (.table made sub'), fun above => ?_, hundone.made hget made⟩
        rw [editAt_table get_set_self (hremove _) made, set_set]
    | some found =>
      cases found with
      | leaf value =>
        rw [hget] at hadd
        cases hadd
      | table header sub =>
        rw [hget] at hadd
        rw [List.map_cons, List.cons_append, at_cons hne hget] at habsent
        dsimp only at hadd
        cases hsub : editAt notTable (fun es => .ok ((), set es key item)) (above ++ [k]) rest sub with
        | error e =>
          rw [hsub] at hadd
          cases hadd
        | ok r =>
          rw [hsub] at hadd
          cases hadd
          obtain ⟨nowEmpty, sub', hremove, hundone⟩ := ih hsub habsent
          refine ⟨nowEmpty, set es k (.table header sub'), fun above => ?_, hundone.table hget made⟩
          rw [editAt_table get_set_self (hremove _) made, set_set]

/-! ## What an addition leaves alone -/

/-- At every level down a path, and at the key below it, the other entries are the same in the
same order; a table that was there keeps its header, and one that was not has the header given. -/
def SameBeside (key : κ) : List (κ × η) → Entries κ η ν → Entries κ η ν → Prop
  | [], es, es' => es'.filter (·.1 ≠ key) = es.filter (·.1 ≠ key)
  | (k, made) :: rest, es, es' => es'.filter (·.1 ≠ k) = es.filter (·.1 ≠ k) ∧
      ∃ header sub sub', (get es k = some (.table header sub) ∨ get es k = none ∧ header = made ∧ sub = []) ∧
        get es' k = some (.table header sub') ∧ SameBeside key rest sub sub'

theorem filter_set : (set es key item).filter (·.1 ≠ key) = es.filter (·.1 ≠ key) := by
  induction es with
  | nil => exact List.filter_cons_of_neg (by simp)
  | cons e es ih =>
    rw [set_cons]
    split
    · next he => rw [List.filter_cons_of_neg (by simp), List.filter_cons_of_neg (by simpa using he)]
    · next he => rw [List.filter_cons_of_pos (by simpa using he), List.filter_cons_of_pos (by simpa using he), ih]

theorem get_filter_ne {other : κ} (h : other ≠ key) : get (es.filter (·.1 ≠ key)) other = get es other := by
  induction es with
  | nil => rfl
  | cons e es ih =>
    by_cases he : e.1 = key
    · rw [List.filter_cons_of_neg (by simpa using he), ih, get_cons, if_neg fun hother => h (hother.symm.trans he)]
    · rw [List.filter_cons_of_pos (by simpa using he), get_cons, get_cons, ih]

theorem get_of_filter_eq {es' : Entries κ η ν} {other : κ} (h : es'.filter (·.1 ≠ key) = es.filter (·.1 ≠ key)) (hne : other ≠ key) :
    get es' other = get es other := by
  rw [← get_filter_ne hne, h, get_filter_ne hne]

/-- What stands beside a path is untouched. -/
theorem at_beside {path : List (κ × η)} {es' : Entries κ η ν} (h : SameBeside key path es es') {q : List κ}
    (hbelow : ¬ path.map Prod.fst ++ [key] <+: q) (habove : ¬ q <+: path.map Prod.fst ++ [key]) : at? es' q = at? es q := by
  induction path generalizing es es' q with
  | nil =>
    cases q with
    | nil => exact absurd List.nil_prefix habove
    | cons k q =>
      have hne : k ≠ key := fun heq => hbelow (heq ▸ List.prefix_append [k] q)
      rw [at?, at?, get_of_filter_eq h hne]
  | cons level rest ih =>
    obtain ⟨k, made⟩ := level
    obtain ⟨hfilter, header, sub, sub', hwas, hget', hrest⟩ := h
    cases q with
    | nil => exact absurd List.nil_prefix habove
    | cons k' q =>
      by_cases hk : k' = k
      · subst hk
        rw [List.map_cons, List.cons_append, List.cons_prefix_cons] at hbelow habove
        have hbelow' := fun h => hbelow ⟨rfl, h⟩
        have habove' := fun h => habove ⟨rfl, h⟩
        have hq : q ≠ [] := fun hnil => habove' (hnil ▸ List.nil_prefix)
        rw [at_cons hq hget', ih hrest hbelow' habove']
        rcases hwas with hget | ⟨hnone, -, rfl⟩
        · rw [at_cons hq hget]
        · rw [at_nil, at_cons_none hnone]
      · rw [at?, at?, get_of_filter_eq hfilter hk]

/-- The entry set is there, and nothing beside it changed. -/
theorem sameBeside_editAt {path : List (κ × η)} {above : List κ} {es' : Entries κ η ν}
    (h : editAt notTable (fun es => .ok ((), set es key item)) above path es = .ok ((), es')) :
    at? es' (path.map Prod.fst ++ [key]) = some item ∧ SameBeside key path es es' := by
  induction path generalizing es above es' with
  | nil =>
    cases h
    exact ⟨get_set_self, filter_set⟩
  | cons level rest ih =>
    obtain ⟨k, made⟩ := level
    have hne : rest.map Prod.fst ++ [key] ≠ [] := by simp
    rw [editAt] at h
    rw [List.map_cons, List.cons_append]
    cases hget : get es k with
    | none =>
      rw [hget] at h
      dsimp only at h
      cases hsub : editAt notTable (fun es => .ok ((), set es key item)) (above ++ [k]) rest [] with
      | error e =>
        rw [hsub] at h
        cases h
      | ok r =>
        rw [hsub] at h
        cases h
        obtain ⟨hat, hbeside⟩ := ih hsub
        refine ⟨by rw [at_cons hne get_set_self, hat], filter_set, made, [], r.2, .inr ⟨hget, rfl, rfl⟩, get_set_self, hbeside⟩
    | some found =>
      cases found with
      | leaf value =>
        rw [hget] at h
        cases h
      | table header sub =>
        rw [hget] at h
        dsimp only at h
        cases hsub : editAt notTable (fun es => .ok ((), set es key item)) (above ++ [k]) rest sub with
        | error e =>
          rw [hsub] at h
          cases h
        | ok r =>
          rw [hsub] at h
          cases h
          obtain ⟨hat, hbeside⟩ := ih hsub
          refine ⟨by rw [at_cons hne get_set_self, hat], filter_set, header, sub, r.2, .inl hget, get_set_self, hbeside⟩

theorem upsertAt_ok {path : List (κ × η)} {es' : Entries κ η ν} (h : upsertAt notTable path key item es = .ok es') :
    editAt notTable (fun es => .ok ((), set es key item)) [] path es = .ok ((), es') := by
  rw [upsertAt] at h
  cases hedit : editAt notTable (fun es => Except.ok ((), set es key item)) [] path es with
  | error e =>
    rw [hedit] at h
    cases h
  | ok r =>
    rw [hedit] at h
    cases h
    rfl

theorem sameBeside_upsertAt {path : List (κ × η)} {es' : Entries κ η ν} (h : upsertAt notTable path key item es = .ok es') :
    at? es' (path.map Prod.fst ++ [key]) = some item ∧ SameBeside key path es es' :=
  sameBeside_editAt (upsertAt_ok h)

/-! ## Adding and removing again -/

/-- Removing what is not there is an error. -/
theorem removeAt_absent {missing : ε} {path : List (κ × η)} (h : at? es (path.map Prod.fst ++ [key]) = none) :
    ∃ e, removeAt notTable missing path key es = .error e := by
  have hedit : ∀ above, ∃ e, editAt notTable (removePresent missing key) above path es = .error e := by
    induction path generalizing es with
    | nil =>
      intro above
      have hnone : get es key = none := h
      refine ⟨missing, ?_⟩
      rw [editAt, removePresent, hnone]
      rfl
    | cons level rest ih =>
      obtain ⟨k, made⟩ := level
      have hne : rest.map Prod.fst ++ [key] ≠ [] := by simp
      intro above
      rw [editAt]
      cases hget : get es k with
      | none =>
        obtain ⟨e, he⟩ := @ih [] (at_nil _) (above ++ [k])
        exact ⟨e, by rw [he]; rfl⟩
      | some found =>
        cases found with
        | leaf value => exact ⟨_, rfl⟩
        | table header sub =>
          rw [List.map_cons, List.cons_append, at_cons hne hget] at h
          obtain ⟨e, he⟩ := ih h (above ++ [k])
          exact ⟨e, by dsimp only; rw [he]; rfl⟩
  obtain ⟨e, he⟩ := hedit []
  exact ⟨e, by rw [removeAt, he]; rfl⟩

/-- An entry added where there was none, and removed again. -/
theorem removeAt_upsertAt {missing : ε} {path : List (κ × η)} {es' : Entries κ η ν}
    (hadd : upsertAt notTable path key item es = .ok es') (habsent : at? es (path.map Prod.fst ++ [key]) = none) :
    removeAt notTable missing path key es' = .ok es ↔ Roomy path es := by
  obtain ⟨nowEmpty, es'', hremove, hundone⟩ := undone_of_added missing (upsertAt_ok hadd) habsent
  have hpruned : removeAt notTable missing path key es' = .ok (pruned path nowEmpty es'') := by
    rw [removeAt, hremove]
    cases nowEmpty with
    | true => exact prune_eq (hundone.emptied rfl)
    | false => rfl
  rw [hpruned, Except.ok.injEq, hundone.roomy]

theorem editAt_of_bare (notTable : List κ → ε) (key : κ) (item : Item κ η ν) {path : List (κ × η)} (h : Bare path es) (above : List κ) :
    at? es (path.map Prod.fst ++ [key]) = none ∧
      ∃ es', editAt notTable (fun es => .ok ((), set es key item)) above path es = .ok ((), es') := by
  induction path generalizing es above with
  | nil => exact ⟨by rw [show es = [] from h]; rfl, _, rfl⟩
  | cons level rest ih =>
    obtain ⟨k, made⟩ := level
    have hne : rest.map Prod.fst ++ [key] ≠ [] := by simp
    rw [List.map_cons, List.cons_append, editAt]
    cases hget : get es k with
    | none =>
      obtain ⟨-, es', hedit⟩ := ih (bare_nil rest) (above ++ [k])
      exact ⟨at_cons_none hget, _, by rw [hedit]; rfl⟩
    | some found =>
      cases found with
      | leaf value =>
        rw [Bare, hget] at h
        exact h.elim
      | table header sub =>
        obtain ⟨habsent, es', hedit⟩ := ih ((bare_table hget made rest).mp h) (above ++ [k])
        refine ⟨by rw [at_cons hne hget, habsent], set es k (.table header es'), ?_⟩
        dsimp only
        rw [hedit]
        rfl

/-- A level that was there and empty is one to which the entry can be added. -/
theorem upsertAt_of_not_roomy (notTable : List κ → ε) (key : κ) (item : Item κ η ν) {path : List (κ × η)} (h : ¬ Roomy path es) :
    at? es (path.map Prod.fst ++ [key]) = none ∧ ∃ es', upsertAt notTable path key item es = .ok es' := by
  cases path with
  | nil => exact absurd trivial h
  | cons level rest =>
    obtain ⟨k, made⟩ := level
    have hbare : Bare ((k, made) :: rest) es := by
      by_contra hbare
      exact h fun header sub hget hsub => hbare ((bare_table hget made rest).mpr hsub)
    obtain ⟨habsent, es', hedit⟩ := editAt_of_bare notTable key item hbare []
    exact ⟨habsent, es', by rw [upsertAt, hedit]; rfl⟩

end

end LinuxHardener.TableTree
