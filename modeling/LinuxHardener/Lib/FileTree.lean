import LinuxHardener.Lib.Bytes
import Mathlib.Data.List.Dedup
import Mathlib.Data.List.MinMax

/-
  A file tree: names, locations, nodes, and the path strings that name them.

  Locations are canonical: the list of names from the root to an entry, no link
  on the way. A path string is parsed into components; `PathWalk` walks them.
  What is proved:
    1. `Tree.get_set`, `Tree.get_erase_self`, `Tree.get_erase_ne` — an update
       touches one location.
    2. `Tree.mem_children` — a directory lists exactly what stands below it.
    3. `parse_render`, `render_injective` — a location's path string parses back
       to it; `join_render`, `parentPath_render` — so do its child's and parent's.

  Hard links, special files and the trailing slash of a path are left out.
-/
namespace LinuxHardener.FileTree

/-! ## Names, locations, nodes -/

/-- What a directory entry may be called. -/
def ValidName (s : String) : Prop := s ≠ "" ∧ s ≠ "." ∧ s ≠ ".." ∧ '/' ∉ s.toList

instance (s : String) : Decidable (ValidName s) := inferInstanceAs (Decidable (_ ∧ _))

abbrev Name := {s : String // ValidName s}

/-- A canonical location: the names from the root down. -/
abbrev Loc := List Name

/-- Permission bits (with set-user-id, set-group-id and sticky) and owner. -/
structure Attr where
  perm : BitVec 12
  uid : UInt32
  gid : UInt32
  deriving DecidableEq, Repr

/-- What a regular file holds: text a reader gets back, or bytes that a read as
text refuses. -/
inductive Data where
  | text (s : String)
  | binary (b : Bytes)
  deriving DecidableEq, Repr

def Data.bytes : Data → Bytes
  | .text s => utf8 s
  | .binary b => b

inductive Node where
  | file (data : Data) (attr : Attr)
  | dir (attr : Attr)
  | link (target : String) (uid gid : UInt32)
  deriving DecidableEq, Repr

/-- The `st_mode` of a node: type bits and permission bits. -/
def Node.mode : Node → UInt32
  | .file _ a => UInt32.ofNat (0o100000 + a.perm.toNat)
  | .dir a => UInt32.ofNat (0o040000 + a.perm.toNat)
  | .link _ _ _ => 0o120777

def Node.uid : Node → UInt32
  | .file _ a => a.uid
  | .dir a => a.uid
  | .link _ u _ => u

def Node.gid : Node → UInt32
  | .file _ a => a.gid
  | .dir a => a.gid
  | .link _ _ g => g

def Node.isLink : Node → Bool
  | .link _ _ _ => true
  | _ => false

def Node.isDir : Node → Bool
  | .dir _ => true
  | _ => false

/-! ## The tree -/

/-- A finite set of entries below a root directory; the first one at a location
counts. -/
structure Tree where
  root : Attr
  entries : List (Loc × Node)
  deriving DecidableEq, Repr

namespace Tree

def get (fs : Tree) (l : Loc) : Option Node :=
  if l = [] then some (.dir fs.root) else fs.entries.lookup l

/-- Put a node at a location. The root stays a directory. -/
def set (fs : Tree) (l : Loc) (n : Node) : Tree :=
  if l = [] then
    match n with
    | .dir a => { fs with root := a }
    | _ => fs
  else { fs with entries := (l, n) :: fs.entries.filter (fun e => e.1 != l) }

def erase (fs : Tree) (l : Loc) : Tree :=
  { fs with entries := fs.entries.filter (fun e => e.1 != l) }

/-- The names a directory lists, in the order the host returns them. -/
def children (fs : Tree) (l : Loc) : List Name :=
  (fs.entries.filterMap (fun e => if e.1.dropLast = l then e.1.getLast? else none)).dedup

theorem lookup_filter_ne (l l' : Loc) (h : l' ≠ l) : ∀ es : List (Loc × Node),
    (es.filter (fun e => e.1 != l)).lookup l' = es.lookup l'
  | [] => rfl
  | (k, n) :: es => by
    have ih := lookup_filter_ne l l' h es
    by_cases hk : k = l
    · subst hk
      have hne : (l' == k) = false := by simpa using h
      simp [List.lookup_cons, hne, ih]
    · have hk' : (k != l) = true := by simpa using hk
      simp only [List.filter_cons, hk', if_true, List.lookup_cons]
      cases l' == k <;> simp [ih]

theorem lookup_filter_self (l : Loc) : ∀ es : List (Loc × Node),
    (es.filter (fun e => e.1 != l)).lookup l = none
  | [] => rfl
  | (k, n) :: es => by
    have ih := lookup_filter_self l es
    by_cases hk : k = l
    · simp [hk, ih]
    · have hk' : (k != l) = true := by simpa using hk
      have hlk : (l == k) = false := by simpa using fun h : l = k => hk h.symm
      simp [hk', List.lookup_cons, hlk, ih]

@[simp] theorem get_root (fs : Tree) : fs.get [] = some (.dir fs.root) := rfl

@[simp] theorem get_set_ne (fs : Tree) {l l' : Loc} (n : Node) (h : l' ≠ l) :
    (fs.set l n).get l' = fs.get l' := by
  unfold get set
  by_cases hl' : l' = []
  · subst hl'
    simp [h.symm]
  · by_cases hl : l = []
    · subst hl
      cases n <;> simp [hl']
    · have hne : (l' == l) = false := by simpa using h
      simp [hl', hl, List.lookup_cons, hne, lookup_filter_ne l l' h]

/-- Only a directory can be put at the root. -/
theorem get_set_self (fs : Tree) {l : Loc} {n : Node} (h : l = [] → n.isDir = true) :
    (fs.set l n).get l = some n := by
  by_cases hl : l = []
  · subst hl
    cases n with
    | dir a => rfl
    | file d a => simp [Node.isDir] at h
    | link t u g => simp [Node.isDir] at h
  · simp [get, set, hl]

theorem get_set (fs : Tree) {l : Loc} {n : Node} (h : l = [] → n.isDir = true) (l' : Loc) :
    (fs.set l n).get l' = if l' = l then some n else fs.get l' := by
  by_cases hl : l' = l
  · subst hl; simp [get_set_self fs h]
  · simp [hl]

theorem get_erase_self (fs : Tree) {l : Loc} (h : l ≠ []) : (fs.erase l).get l = none := by
  simp [get, erase, lookup_filter_self, h]

@[simp] theorem get_erase_ne (fs : Tree) {l l' : Loc} (h : l' ≠ l) :
    (fs.erase l).get l' = fs.get l' := by
  simp [get, erase, lookup_filter_ne l l' h]

theorem lookup_isSome (l : Loc) (es : List (Loc × Node)) :
    (es.lookup l).isSome = true ↔ ∃ n, (l, n) ∈ es := by
  rw [List.lookup_isSome_iff]
  constructor
  · rintro ⟨⟨k, n⟩, hmem, hk⟩
    have hk : l = k := by simpa using hk
    exact ⟨n, hk ▸ hmem⟩
  · rintro ⟨n, hmem⟩
    exact ⟨(l, n), hmem, by simp⟩

/-- A directory lists exactly the names that stand below it. -/
theorem mem_children (fs : Tree) (l : Loc) (n : Name) :
    n ∈ fs.children l ↔ (fs.get (l ++ [n])).isSome = true := by
  have hget : (fs.get (l ++ [n])).isSome = true ↔ (fs.entries.lookup (l ++ [n])).isSome = true := by
    simp [get]
  rw [hget, lookup_isSome]
  simp only [children, List.mem_dedup, List.mem_filterMap, Prod.exists]
  constructor
  · rintro ⟨k, x, hmem, hk⟩
    split at hk
    · next hd =>
      refine ⟨x, ?_⟩
      have : k = l ++ [n] := by
        rw [← hd]; exact (List.dropLast_append_getLast? n hk).symm
      rw [← this]; exact hmem
    · cases hk
  · rintro ⟨x, hmem⟩
    exact ⟨l ++ [n], x, hmem, by simp⟩

/-- No entry lies deeper than this. -/
def depth (fs : Tree) : Nat := (fs.entries.map (fun e => e.1.length)).foldr max 0

theorem length_le_depth (fs : Tree) {l : Loc} {n : Node} (h : fs.get l = some n) :
    l.length ≤ fs.depth := by
  by_cases hl : l = []
  · subst hl; simp
  · have hs : (fs.entries.lookup l).isSome = true := by
      rw [get, if_neg hl] at h
      rw [h]; rfl
    obtain ⟨x, hx⟩ := (lookup_isSome l _).mp hs
    exact List.le_max_of_le (List.mem_map.mpr ⟨(l, x), hx, rfl⟩) (Nat.le_refl _)

end Tree

/-! ## Paths -/

/-- One component of a path string. -/
inductive Comp where
  | up
  | name (n : Name)
  deriving DecidableEq, Repr

/-- A word between two slashes; the empty word and `.` name nothing. -/
def toComp (w : List Char) : Option Comp :=
  if String.ofList w = ".." then some .up
  else if h : ValidName (String.ofList w) then some (.name ⟨String.ofList w, h⟩)
  else none

def parse (p : String) : List Comp := (p.toList.splitOn '/').filterMap toComp

def isAbsolute (p : String) : Bool := p.toList.head? == some '/'

def Comp.chars : Comp → List Char
  | .up => ['.', '.']
  | .name n => n.val.toList

/-- The absolute path string of a list of components. -/
def renderComps (cs : List Comp) : String :=
  if cs = [] then "/" else String.ofList (cs.flatMap (fun c => '/' :: c.chars))

/-- The path string of a location. -/
def render (l : Loc) : String := renderComps (l.map Comp.name)

/-- `Path::join` of a directory path and an entry's name. -/
def join (dir : String) (n : Name) : String :=
  if dir.toList.getLast? = some '/' then dir ++ n.val else dir ++ "/" ++ n.val

/-- `Path::parent`. -/
def parentPath (p : String) : Option String :=
  if parse p = [] then none else some (renderComps (parse p).dropLast)

theorem toComp_name (n : Name) : toComp n.val.toList = some (.name n) := by
  have hv := n.property
  simp [toComp, hv.2.2.1, hv]

theorem splitOn_render : ∀ l : Loc,
    (l.flatMap (fun n => '/' :: n.val.toList)).splitOn '/' = [] :: l.map (fun n => n.val.toList)
  | [] => rfl
  | [n] => by
    have hn : '/' ∉ n.val.toList := n.property.2.2.2
    simp [List.splitOn_cons_eq_if_modifyHead, List.splitOn_eq_singleton hn]
  | n :: m :: l => by
    have hn : '/' ∉ n.val.toList := n.property.2.2.2
    have ih := splitOn_render (m :: l)
    simp only [List.flatMap_cons, List.cons_append, List.splitOn_cons_eq_if_modifyHead,
      beq_self_eq_true, if_true, List.map_cons, List.cons.injEq, true_and] at ih ⊢
    rw [List.splitOn_append_cons_self_of_not_mem hn, ih]

theorem render_toList {l : Loc} (h : l ≠ []) :
    (render l).toList = l.flatMap (fun n => '/' :: n.val.toList) := by
  simp [render, renderComps, h, List.flatMap_map, Comp.chars]

/-- A location's path string parses back to it. -/
@[simp] theorem parse_render (l : Loc) : parse (render l) = l.map Comp.name := by
  by_cases h : l = []
  · subst h; decide
  · have hnil : toComp [] = none := by decide
    have hcomp : (toComp ∘ fun n : Name => n.val.toList) = fun n => some (Comp.name n) :=
      funext toComp_name
    rw [parse, render_toList h, splitOn_render, List.filterMap_cons_none hnil, List.filterMap_map, hcomp,
      List.filterMap_eq_map']

theorem render_injective {l l' : Loc} (h : render l = render l') : l = l' := by
  have := congrArg parse h
  rw [parse_render, parse_render] at this
  exact List.map_injective_iff.mpr (fun a b hab => by cases hab; rfl) this

theorem isAbsolute_render (l : Loc) : isAbsolute (render l) = true := by
  by_cases h : l = []
  · subst h; rfl
  · cases l with
    | nil => exact absurd rfl h
    | cons n l => simp [isAbsolute, render_toList h]

theorem splitOn_name (n : Name) : n.val.toList.splitOn '/' = [n.val.toList] :=
  List.splitOn_eq_singleton n.property.2.2.2

/-- Joining a name adds it as the last component. -/
@[simp] theorem parse_join (dir : String) (n : Name) : parse (join dir n) = parse dir ++ [.name n] := by
  have hnil : toComp [] = none := by decide
  have hname := toComp_name n
  unfold join
  split
  · next hlast =>
    -- the empty word after the last slash names nothing
    obtain ⟨q, hq⟩ : ∃ q, dir.toList = q ++ ['/'] := ⟨_, (List.dropLast_append_getLast? _ hlast).symm⟩
    have hjoin : (dir ++ n.val).toList = q ++ '/' :: n.val.toList := by simp [hq]
    rw [parse, parse, hjoin, hq, List.splitOn_append_cons_self, List.splitOn_append_cons_self, splitOn_name,
      List.splitOn_nil, List.filterMap_append, List.filterMap_append]
    simp [hnil, hname]
  · have hjoin : (dir ++ "/" ++ n.val).toList = dir.toList ++ '/' :: n.val.toList := by simp
    rw [parse, parse, hjoin, List.splitOn_append_cons_self, splitOn_name, List.filterMap_append]
    simp [hname]

theorem isAbsolute_join {dir : String} (h : isAbsolute dir = true) (n : Name) :
    isAbsolute (join dir n) = true := by
  unfold isAbsolute at h ⊢
  unfold join
  cases hd : dir.toList with
  | nil => simp [hd] at h
  | cons c cs => split <;> simpa [hd] using h

theorem join_render (l : Loc) (n : Name) : join (render l) n = render (l ++ [n]) := by
  have hn : n.val.toList ≠ [] := by
    intro h; exact n.property.1 (String.toList_eq_nil_iff.mp h)
  by_cases h : l = []
  · subst h
    apply String.toList_inj.mp
    rw [render_toList (by simp)]
    simp [join, render, renderComps]
  · have hlast : (render l).toList.getLast? ≠ some '/' := by
      rw [render_toList h]
      obtain ⟨l', m, rfl⟩ : ∃ l' m, l = l' ++ [m] := ⟨_, _, (List.dropLast_append_getLast h).symm⟩
      have hm : m.val.toList ≠ [] := fun h => m.property.1 (String.toList_eq_nil_iff.mp h)
      have hm' : '/' ∉ m.val.toList := m.property.2.2.2
      intro hc
      rw [List.flatMap_append, List.flatMap_singleton, List.getLast?_append_of_ne_nil _ (by simp)] at hc
      have hmem := List.mem_of_getLast? hc
      rw [List.getLast?_cons] at hc
      cases hg : m.val.toList.getLast? with
      | none => exact hm (List.getLast?_eq_none_iff.mp hg)
      | some c =>
        rw [hg] at hc
        simp at hc
        exact hm' (hc ▸ List.mem_of_getLast? hg)
    apply String.toList_inj.mp
    rw [render_toList (by simp), join, if_neg hlast, String.toList_append, String.toList_append,
      render_toList h]
    simp

theorem parentPath_render (l : Loc) (n : Name) : parentPath (render (l ++ [n])) = some (render l) := by
  rw [parentPath, parse_render]
  simp [render]

end LinuxHardener.FileTree
