import LinuxHardener.Ssh.Include

/-
  The resolver's walk as a tree.

  The segments `expandInto` collects are an order of reading; the tree says what was
  read where. What is proved: `expandInto_walks` and `walks_expandInto` — the walk
  returns segments exactly where there is such a tree, and for every directive they
  supply what the tree does (`Walk.value`).
-/
namespace LinuxHardener.Ssh

open Text LineText Glob Common

/-- A file as the resolver reads it: its lines, a cut at every Include line, and behind
it the files it names. -/
inductive Walk where
  | done
  | line (text : Chars) (rest : Walk)
  | cut (rest : Walk)
  | file (path : FilePath) (included rest : Walk)
  deriving DecidableEq, Repr

/-- What is still to be read of a file: its lines, and the files an Include names. -/
inductive Work where
  | line (text : Chars)
  | file (path : FilePath)
  deriving DecidableEq, Repr

/-- What a line supplies, if the file it stands in is considered. -/
def lineSupply (considered : FilePath → Bool) (d : Chars) (p : FilePath) (l : Chars) : Option EffectiveValue :=
  if considered p then (definition d l).map (fun value => ⟨value, p⟩) else none

/-- What a directive gets from the rest of a file, inside a `Match` block or not. A block
ends at the next Include line. -/
def Walk.value (considered : FilePath → Bool) (d : Chars) : FilePath → Bool → Walk → Option EffectiveValue
  | _, _, .done => none
  | p, inMatch, .line l rest =>
    if inMatch || opensMatch l then rest.value considered d p true
    else (lineSupply considered d p l).or (rest.value considered d p false)
  | p, _, .cut rest => rest.value considered d p false
  | p, inMatch, .file q included rest =>
    (included.value considered d q false).or (rest.value considered d p inMatch)

/-- The tree of a file's remaining lines and pending includes, so many levels deep. -/
inductive Walks (reader : Reader) : Nat → FilePath → List Work → Walk → Prop where
  | done {n : Nat} {p : FilePath} : Walks reader n p [] .done
  | line {n : Nat} {p : FilePath} {l : Chars} {ws : List Work} {w : Walk} (h : includePatterns l = none)
      (hw : Walks reader n p ws w) : Walks reader n p (.line l :: ws) (.line l w)
  | cut {n : Nat} {p : FilePath} {l : Chars} {patterns : List Chars} {files : List (List FilePath)} {ws : List Work}
      {w : Walk} (h : includePatterns l = some patterns)
      (hf : List.Forall₂ (fun pattern fs => expandPattern reader pattern p = .ok fs) patterns files)
      (hw : Walks reader n p (files.flatten.map Work.file ++ ws) w) : Walks reader n p (.line l :: ws) (.cut w)
  | file {n : Nat} {p f : FilePath} {content : Chars} {ws : List Work} {a w : Walk}
      (h : reader.readFile f = .ok content) (ha : Walks reader n f ((lines content).map Work.line) a)
      (hw : Walks reader (n + 1) p ws w) : Walks reader (n + 1) p (.file f :: ws) (.file f a w)

theorem bind_ok {ε α β : Type} {x : Except ε α} {f : α → Except ε β} {r : β} (h : (x >>= f) = .ok r) :
    ∃ a, x = .ok a ∧ f a = .ok r := by
  cases x with
  | error e => cases h
  | ok a => exact ⟨a, rfl, h⟩

theorem mapError_ok {ε ε' α : Type} {x : Except ε α} {f : ε → ε'} {a : α} (h : x.mapError f = .ok a) : x = .ok a := by
  cases x with
  | error e => cases h
  | ok b => cases h; rfl

/-! ## What segments supply -/

/-- What some segments supply for a directive. -/
def supplied (considered : FilePath → Bool) (d : Chars) (segments : List Segment) : Option EffectiveValue :=
  (segments.filter (fun segment => considered segment.1)).findSome? (segmentValue d)

@[simp] theorem supplied_nil (considered : FilePath → Bool) (d : Chars) : supplied considered d [] = none := rfl

theorem supplied_append (considered : FilePath → Bool) (d : Chars) (a b : List Segment) :
    supplied considered d (a ++ b) = (supplied considered d a).or (supplied considered d b) := by
  unfold supplied
  rw [List.filter_append, List.findSome?_append]

/-- What the lines pending in front of an Include supply. -/
def pendingSupply (considered : FilePath → Bool) (d : Chars) (p : FilePath) (ls : List Chars) : Option EffectiveValue :=
  if considered p then (firstGlobal d ls).map (fun value => ⟨value, p⟩) else none

theorem supplied_flush {ls : List Chars} (h : ∀ l ∈ ls, '\n' ∉ l) (considered : FilePath → Bool) (d : Chars)
    (p : FilePath) (segments : List Segment) :
    supplied considered d (flush p (pendingText ls) segments) =
      (supplied considered d segments).or (pendingSupply considered d p ls) := by
  unfold flush
  split
  · next he =>
    have hnil : ls = [] := by
      cases ls with
      | nil => rfl
      | cons l ls => simp [pendingText] at he
    rw [hnil]
    simp [pendingSupply]
  · rw [supplied_append]
    refine congrArg _ ?_
    unfold supplied pendingSupply
    rw [List.filter_cons]
    split
    · rw [List.filter_nil, List.findSome?_cons, segmentValue, scopedValue_pending h, List.findSome?_nil]
      cases firstGlobal d ls <;> rfl
    · rfl

theorem pendingText_concat (ls : List Chars) (l : Chars) : pendingText ls ++ (l ++ ['\n']) = pendingText (ls ++ [l]) := by
  simp [pendingText]

/-- A line joins the pending ones: what both supply together is the same. -/
theorem pendingSupply_concat (considered : FilePath → Bool) (d : Chars) (p : FilePath) (ls : List Chars) (l : Chars)
    (w : Walk) :
    (pendingSupply considered d p (ls ++ [l])).or (w.value considered d p ((ls ++ [l]).any opensMatch)) =
      (pendingSupply considered d p ls).or ((Walk.line l w).value considered d p (ls.any opensMatch)) := by
  rw [List.any_append, List.any_cons, List.any_nil, Bool.or_false, Walk.value]
  cases hls : ls.any opensMatch with
  | true =>
    have hmem := List.any_eq_true.mp hls
    rw [Bool.true_or, if_pos (by simp)]
    unfold pendingSupply
    rw [firstGlobal_append_of_match hmem]
  | false =>
    have hnone : ∀ m ∈ ls, opensMatch m = false := fun m hm => by simpa using List.any_eq_false.mp hls m hm
    have hsplit : pendingSupply considered d p (ls ++ [l]) =
        (pendingSupply considered d p ls).or (if opensMatch l then none else lineSupply considered d p l) := by
      unfold pendingSupply lineSupply
      rw [firstGlobal_append hnone, firstGlobal_cons, firstGlobal_nil, Option.or_none]
      cases considered p with
      | false => cases opensMatch l <;> rfl
      | true =>
        cases opensMatch l with
        | true => simp
        | false => cases firstGlobal d ls <;> simp
    rw [hsplit, Bool.false_or]
    cases opensMatch l with
    | true => simp
    | false => simp [Option.or_assoc]

/-! ## From the segments to the tree -/

section

variable {reader : Reader} {n : Nat} {below : FilePath → Chars → Except String (List Segment)}

/-- Segments that are what a file's next items supply, in front of any tree for the rest. -/
def Block (reader : Reader) (n : Nat) (p : FilePath) (items : List Work) (segments : List Segment) : Prop :=
  ∃ g : Walk → Walk, ∀ ws w, Walks reader n p ws w → Walks reader n p (items ++ ws) (g w) ∧
    ∀ considered d inMatch, (g w).value considered d p inMatch =
      (supplied considered d segments).or (w.value considered d p inMatch)

theorem Block.nil (p : FilePath) : Block reader n p [] [] := ⟨id, fun _ _ hw => ⟨hw, fun _ _ _ => rfl⟩⟩

theorem Block.append {p : FilePath} {xs ys : List Work} {a b : List Segment} (hx : Block reader n p xs a)
    (hy : Block reader n p ys b) : Block reader n p (xs ++ ys) (a ++ b) := by
  obtain ⟨g, hg⟩ := hx
  obtain ⟨k, hk⟩ := hy
  refine ⟨fun w => g (k w), fun ws w hw => ?_⟩
  obtain ⟨hr, hv⟩ := hk ws w hw
  obtain ⟨hr', hv'⟩ := hg _ _ hr
  refine ⟨by rwa [List.append_assoc], fun considered d inMatch => ?_⟩
  rw [hv', hv, supplied_append, Option.or_assoc]

/-- What the walk of an included file is worth. -/
def TreeBelow (reader : Reader) (below : FilePath → Chars → Except String (List Segment)) (n : Nat) : Prop :=
  ∀ f c segments, below f c = .ok segments → ∃ m w, n = m + 1 ∧ Walks reader m f ((lines c).map Work.line) w ∧
    ∀ considered d, supplied considered d segments = w.value considered d f false

theorem appendFile_block (hb : TreeBelow reader below n) {p f : FilePath} {segments out : List Segment}
    (h : appendFile reader below segments f = .ok out) :
    ∃ added, out = segments ++ added ∧ Block reader n p [Work.file f] added := by
  obtain ⟨content, hread, h⟩ := bind_ok h
  have hread := mapError_ok hread
  obtain ⟨added, hbelow, h⟩ := bind_ok h
  cases h
  obtain ⟨m, a, rfl, ha, hv⟩ := hb f content added hbelow
  exact ⟨added, rfl, fun w => .file f a w, fun ws w hw =>
    ⟨.file hread ha hw, fun considered d inMatch => by rw [Walk.value, hv]⟩⟩

theorem appendFiles_block (hb : TreeBelow reader below n) {p : FilePath} (files : List FilePath)
    {segments out : List Segment} (h : files.foldlM (appendFile reader below) segments = .ok out) :
    ∃ added, out = segments ++ added ∧ Block reader n p (files.map Work.file) added := by
  induction files generalizing segments with
  | nil =>
    cases h
    exact ⟨[], by simp, Block.nil p⟩
  | cons f files ih =>
    rw [List.foldlM_cons] at h
    obtain ⟨mid, hone, hrest⟩ := bind_ok h
    obtain ⟨a, rfl, hba⟩ := appendFile_block (p := p) hb hone
    obtain ⟨b, rfl, hbb⟩ := ih hrest
    exact ⟨a ++ b, by simp, hba.append hbb⟩

/-- The patterns of one line, each expanded to the files it names. -/
theorem appendPatterns_block (hb : TreeBelow reader below n) {p : FilePath} (patterns : List Chars)
    {segments out : List Segment} (h : patterns.foldlM (appendPattern reader below p) segments = .ok out) :
    ∃ files added, List.Forall₂ (fun pattern fs => expandPattern reader pattern p = .ok fs) patterns files ∧
      out = segments ++ added ∧ Block reader n p (files.flatten.map Work.file) added := by
  induction patterns generalizing segments with
  | nil =>
    cases h
    exact ⟨[], [], .nil, by simp, Block.nil p⟩
  | cons pattern patterns ih =>
    rw [List.foldlM_cons] at h
    obtain ⟨mid, hone, hrest⟩ := bind_ok h
    obtain ⟨included, hexp, hone⟩ := bind_ok hone
    obtain ⟨a, rfl, hba⟩ := appendFiles_block (p := p) hb included hone
    obtain ⟨files, b, hfiles, rfl, hbb⟩ := ih hrest
    refine ⟨included :: files, a ++ b, .cons hexp hfiles, by simp, ?_⟩
    rw [List.flatten_cons, List.map_append]
    exact hba.append hbb

/-- The walk of a file's remaining lines, from what is pending above them. -/
theorem expandLines_walks (hb : TreeBelow reader below n) {p : FilePath} (ls : List Chars) {segments out : List Segment}
    {pending : Chars} {ls₀ : List Chars} (hnl : ∀ l ∈ ls, '\n' ∉ l) (hnl₀ : ∀ l ∈ ls₀, '\n' ∉ l)
    (h : ls.foldlM (expandLine reader below p) (segments, pendingText ls₀) = .ok (out, pending)) :
    ∃ ls₁ w, pending = pendingText ls₁ ∧ (∀ l ∈ ls₁, '\n' ∉ l) ∧ Walks reader n p (ls.map Work.line) w ∧
      ∀ considered d, (supplied considered d out).or (pendingSupply considered d p ls₁) =
        (supplied considered d segments).or
          ((pendingSupply considered d p ls₀).or (w.value considered d p (ls₀.any opensMatch))) := by
  induction ls generalizing segments ls₀ with
  | nil =>
    cases h
    exact ⟨ls₀, .done, rfl, hnl₀, .done, fun considered d => by rw [Walk.value, Option.or_none]⟩
  | cons l ls ih =>
    have hnl' : ∀ m ∈ ls, '\n' ∉ m := fun m hm => hnl m (by simp [hm])
    rw [List.foldlM_cons] at h
    obtain ⟨state, hstate, h⟩ := bind_ok h
    unfold expandLine at hstate
    cases hp : includePatterns l with
    | none =>
      rw [hp] at hstate
      cases hstate
      have hnl₁ : ∀ m ∈ ls₀ ++ [l], '\n' ∉ m := by
        intro m hm
        rcases List.mem_append.mp hm with hm | hm
        · exact hnl₀ m hm
        · rw [List.mem_singleton.mp hm]
          exact hnl l (by simp)
      have hnext : ls.foldlM (expandLine reader below p) (segments, pendingText (ls₀ ++ [l])) = .ok (out, pending) := by
        rw [← pendingText_concat]
        exact h
      obtain ⟨ls₁, w, hpend, hls₁, hw, hv⟩ := ih hnl' hnl₁ hnext
      refine ⟨ls₁, .line l w, hpend, hls₁, .line hp hw, fun considered d => ?_⟩
      rw [hv, pendingSupply_concat]
    | some patterns =>
      rw [hp] at hstate
      obtain ⟨mid, hpatterns, hstate⟩ := bind_ok hstate
      cases hstate
      obtain ⟨files, added, hfiles, rfl, g, hg⟩ := appendPatterns_block hb patterns hpatterns
      obtain ⟨ls₁, w, hpend, hls₁, hw, hv⟩ := @ih _ [] hnl' (by simp) h
      obtain ⟨hread, hvalue⟩ := hg _ w hw
      refine ⟨ls₁, .cut (g w), hpend, hls₁, .cut hp hfiles hread, fun considered d => ?_⟩
      rw [hv, supplied_append, supplied_flush hnl₀, Walk.value, hvalue]
      simp [pendingSupply, Option.or_assoc]

end

/-- A walk that returns has its tree, and supplies what the tree does. -/
theorem expandInto_walks {reader : Reader} {depth : Nat} {p : FilePath} {c : Chars} {segments : List Segment}
    (h : expandInto reader depth p c = .ok segments) :
    ∃ n w, depth = n + 1 ∧ Walks reader n p ((lines c).map Work.line) w ∧
      ∀ considered d, supplied considered d segments = w.value considered d p false := by
  induction depth generalizing p c segments with
  | zero => cases h
  | succ n ih =>
    rw [expandInto] at h
    obtain ⟨state, hfold, h⟩ := bind_ok h
    cases h
    have hstart : ∀ l ∈ lines c, '\n' ∉ l := fun l hl => newline_not_mem_stripTerminator hl
    obtain ⟨ls₁, w, hp, hnl, hw, hv⟩ :=
      expandLines_walks (fun f c segments h => ih h) (lines c) hstart (List.forall_mem_nil _) hfold
    refine ⟨n, w, rfl, hw, fun considered d => ?_⟩
    rw [hp, supplied_flush hnl, hv]
    simp [pendingSupply]

/-! ## From the tree to the segments -/

section

variable {reader : Reader} {n : Nat} {below : FilePath → Chars → Except String (List Segment)}

/-- A file whose tree there is can be walked. -/
def WalksBelow (reader : Reader) (below : FilePath → Chars → Except String (List Segment)) (n : Nat) : Prop :=
  ∀ m f c w, n = m + 1 → Walks reader m f ((lines c).map Work.line) w → ∃ segments, below f c = .ok segments

theorem appendFiles_ok (hb : WalksBelow reader below n) {p : FilePath} (segments : List Segment) (files : List FilePath)
    {ws : List Work} {w : Walk} (h : Walks reader n p (files.map Work.file ++ ws) w) :
    ∃ out, files.foldlM (appendFile reader below) segments = .ok out ∧ ∃ w', Walks reader n p ws w' := by
  induction files generalizing segments w with
  | nil => exact ⟨segments, rfl, w, h⟩
  | cons f files ih =>
    cases h with
    | file hr ha hw =>
      obtain ⟨added, hadded⟩ := hb _ f _ _ rfl ha
      obtain ⟨out, hout, hrest⟩ := @ih (segments ++ added) _ hw
      refine ⟨out, ?_, hrest⟩
      rw [List.foldlM_cons, appendFile, hr]
      show (below f _ >>= _) >>= _ = _
      rw [hadded]
      exact hout

theorem appendPatterns_ok (hb : WalksBelow reader below n) {p : FilePath} (segments : List Segment)
    (patterns : List Chars) {files : List (List FilePath)} {ws : List Work} {w : Walk}
    (hf : List.Forall₂ (fun pattern fs => expandPattern reader pattern p = .ok fs) patterns files)
    (h : Walks reader n p (files.flatten.map Work.file ++ ws) w) :
    ∃ out, patterns.foldlM (appendPattern reader below p) segments = .ok out ∧ ∃ w', Walks reader n p ws w' := by
  induction hf generalizing segments w with
  | nil => exact ⟨segments, rfl, w, h⟩
  | @cons pattern included patterns files hexp _ ih =>
    rw [List.flatten_cons, List.map_append, List.append_assoc] at h
    obtain ⟨mid, hmid, w', hw'⟩ := appendFiles_ok hb segments included h
    obtain ⟨out, hout, hrest⟩ := @ih mid _ hw'
    refine ⟨out, ?_, hrest⟩
    rw [List.foldlM_cons, appendPattern, hexp]
    show (included.foldlM _ segments >>= _) = _
    rw [hmid]
    exact hout

theorem expandLines_ok (hb : WalksBelow reader below n) {p : FilePath} (state : List Segment × Chars) (ls : List Chars)
    {w : Walk} (h : Walks reader n p (ls.map Work.line) w) :
    ∃ out, ls.foldlM (expandLine reader below p) state = .ok out := by
  induction ls generalizing state w with
  | nil => exact ⟨state, rfl⟩
  | cons l ls ih =>
    cases h with
    | line hp hw =>
      obtain ⟨out, hout⟩ := @ih (state.1, state.2 ++ (l ++ ['\n'])) _ hw
      refine ⟨out, ?_⟩
      rw [List.foldlM_cons, expandLine, hp]
      exact hout
    | cut hp hf hw =>
      obtain ⟨mid, hmid, w', hw'⟩ := appendPatterns_ok hb (flush p state.2 state.1) _ hf hw
      obtain ⟨out, hout⟩ := @ih (mid, []) _ hw'
      refine ⟨out, ?_⟩
      rw [List.foldlM_cons, expandLine, hp]
      show ((_ : Except String (List Segment)) >>= _) >>= _ = _
      rw [hmid]
      exact hout

end

/-- Where there is a tree, the walk returns. -/
theorem walks_expandInto {reader : Reader} {n : Nat} {p : FilePath} {c : Chars} {w : Walk}
    (h : Walks reader n p ((lines c).map Work.line) w) : ∃ segments, expandInto reader (n + 1) p c = .ok segments := by
  induction n generalizing p c w with
  | zero =>
    have hbelow : WalksBelow reader (expandInto reader 0) 0 := fun m _ _ _ hm => by cases hm
    obtain ⟨out, hout⟩ := expandLines_ok hbelow ([], []) (lines c) h
    exact ⟨flush p out.2 out.1, by rw [expandInto, hout]; rfl⟩
  | succ n ih =>
    have hbelow : WalksBelow reader (expandInto reader (n + 1)) (n + 1) := fun m f c w hm hw => by
      cases hm
      exact ih hw
    obtain ⟨out, hout⟩ := expandLines_ok hbelow ([], []) (lines c) h
    exact ⟨flush p out.2 out.1, by rw [expandInto, hout]; rfl⟩

/-! ## Resolved configurations -/

/-- How many levels of included files there may be below the main one. -/
def includeLevels : Nat := 15

theorem resolve_ok {reader : Reader} {path : FilePath} {content : Chars} {resolved : ResolvedConfig} :
    resolve reader path content = .ok resolved ↔ expandInto reader maxIncludeDepth path content = .ok resolved.segments := by
  unfold resolve
  cases expandInto reader maxIncludeDepth path content with
  | error e =>
    constructor <;> intro h <;> cases h
  | ok segments =>
    constructor <;> intro h <;> cases h <;> rfl

/-- A configuration the resolver returns has its tree, and reads as the tree does. -/
theorem resolve_walks {reader : Reader} {path : FilePath} {content : Chars} {resolved : ResolvedConfig}
    (h : resolve reader path content = .ok resolved) :
    ∃ w, Walks reader includeLevels path ((lines content).map Work.line) w ∧
      ∀ considered d, resolved.firstValue d considered = w.value considered d path false := by
  obtain ⟨n, w, hn, hw, hv⟩ := expandInto_walks (resolve_ok.mp h)
  cases hn
  exact ⟨w, hw, hv⟩

theorem walks_resolve {reader : Reader} {path : FilePath} {content : Chars} {w : Walk}
    (h : Walks reader includeLevels path ((lines content).map Work.line) w) :
    ∃ resolved, resolve reader path content = .ok resolved := by
  obtain ⟨segments, hs⟩ := walks_expandInto h
  exact ⟨⟨segments⟩, resolve_ok.mpr hs⟩

end LinuxHardener.Ssh
