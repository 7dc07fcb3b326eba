import LinuxHardener.Kernel.Apply

/-
  A host under the kernel plugin: files that may be read or not and written or not, what
  the probes of the preview answer, and what an apply makes of it.

  What is proved:
    1. `play_applyParameters` — the loop of an apply, as the writes it makes one by one.
    2. `writes_applyPlugin`, `after_applyPlugin` — an apply as a whole.
    3. `preview_spec`, `validate_spec` — the preview, on the same host.
-/
namespace LinuxHardener.Kernel

open LineText Plugins Dialogue
open Core (ApplyResult ValidationReport)

structure KernelHost where
  /-- What stands at a path. -/
  file : Chars → Option Chars
  /-- Why a path cannot be read, whatever stands there. -/
  refuses : Chars → Option Chars
  /-- What a write to a path meets. -/
  write : Chars → Except Chars Unit
  metadata : Chars → Except Chars FileMetadata
  mount : Chars → Except Chars CommandOutput
  dropinDir : Except Chars Bool
  mkdir : Except Chars CommandOutput
  checkpoint : Except Chars Chars

namespace KernelHost

/-- `/proc/sys` ends a value with a newline; a file holds what was written. -/
def stored (path content : Chars) : Chars := if path = sysctlHardenerConf then content else content ++ ['\n']

def store (h : KernelHost) (path content : Chars) : KernelHost :=
  { h with file := fun path' => if path' = path then some (stored path content) else h.file path' }

def read (h : KernelHost) (path : Chars) : Except Chars Chars :=
  match h.refuses path with
  | some e => .error e
  | none =>
    match h.file path with
    | some content => .ok content
    | none => .error "No such file or directory"

def respond (h : KernelHost) : (q : Query) → q.Answer
  | .execute program args =>
    if program = "findmnt".toList then h.mount (args[1]?.getD [])
    else if program = "mkdir".toList then h.mkdir
    else .error "command not found"
  | .pathExists _ => h.dropinDir
  | .metadata path => h.metadata path
  | .readFile path => h.read path
  | .readDir _ => .ok []
  | .writeFile path _ => h.write path
  | .checkpoint _ _ => h.checkpoint

def react (h : KernelHost) : Exchange → KernelHost
  | ⟨.writeFile path content, .ok ()⟩ => h.store path content
  | _ => h

/-- What a plugin does on the host. -/
def session {α : Type} (h : KernelHost) (p : Session α) : List Exchange × α := play respond react p h

def afterwards {α : Type} (h : KernelHost) (p : Session α) : KernelHost := after react h (h.session p).1

/-- The value a run observes of the parameter of a name. -/
def observed (h : KernelHost) (name : Chars) : Option Chars :=
  (h.read ("/proc/sys/".toList ++ procfsKey name)).toOption.map LineText.trim

end KernelHost

/-- A write that was asked for. -/
def writeOf (e : Exchange) : Option (Chars × Chars) :=
  match e with
  | ⟨.writeFile path content, _⟩ => some (path, content)
  | _ => none

/-- A write that was made. -/
def madeOf (e : Exchange) : Option (Chars × Chars) :=
  match e with
  | ⟨.writeFile path content, .ok ()⟩ => some (path, content)
  | _ => none

/-! ## Paths -/

theorem procPath_inj {p q : KernelParameter} (hp : p ∈ kernelParams) (hq : q ∈ kernelParams) (h : procPath p = procPath q) :
    p = q := by
  unfold procPath at h
  exact List.inj_on_of_nodup_map nodup_procfsKey hp hq (List.append_cancel_left h)

theorem procPath_ne_conf (p : KernelParameter) : procPath p ≠ sysctlHardenerConf := by
  intro h
  have := congrArg (List.take 2) h
  unfold procPath at this
  rw [List.take_append_of_le_length (by decide)] at this
  revert this
  decide

/-! ## Sessions -/

namespace KernelHost

variable {α β : Type} (h : KernelHost)

@[simp] theorem session_pure (a : α) : h.session (pure a) = ([], a) := rfl

@[simp] theorem afterwards_pure (a : α) : h.afterwards (pure a : Session α) = h := rfl

@[simp] theorem session_ask (q : Query) : h.session (ask q) = ([⟨q, h.respond q⟩], h.respond q) := rfl

@[simp] theorem afterwards_ask (q : Query) : h.afterwards (ask q) = h.react ⟨q, h.respond q⟩ := rfl

theorem session_bind (p : Session α) (f : α → Session β) : h.session (p >>= f) =
    ((h.session p).1 ++ ((h.afterwards p).session (f (h.session p).2)).1, ((h.afterwards p).session (f (h.session p).2)).2) :=
  play_bind respond react p f h

theorem afterwards_bind (p : Session α) (f : α → Session β) :
    h.afterwards (p >>= f) = (h.afterwards p).afterwards (f (h.session p).2) := by
  unfold afterwards
  rw [session_bind, after_append]
  rfl

@[simp] theorem write_react (e : Exchange) : (h.react e).write = h.write := by
  unfold react
  split <;> rfl

@[simp] theorem refuses_react (e : Exchange) : (h.react e).refuses = h.refuses := by
  unfold react
  split <;> rfl

theorem read_react_ne {e : Exchange} {path : Chars} (hne : ∀ content, e.query ≠ .writeFile path content) :
    (h.react e).read path = h.read path := by
  unfold react
  split
  · next path' content =>
    have hpath : path ≠ path' := fun heq => hne content (by rw [heq])
    unfold read store
    simp only [if_neg hpath]
  · rfl

/-- A question that writes no file. -/
def WritesNothing (q : Query) : Prop := ∀ path content, q ≠ .writeFile path content

/-- A program that writes nothing leaves the host as it is. -/
theorem afterwards_of_reads {p : Session α} (hp : Asks WritesNothing p) : h.afterwards p = h := by
  refine after_eq_self (fun e he host => ?_) h
  have hquery := hp.of_run (run_play respond react p h) e he
  obtain ⟨q, r⟩ := e
  cases q with
  | writeFile path content => exact absurd rfl (hquery path content)
  | _ => rfl

theorem writes_of_reads {p : Session α} (hp : Asks WritesNothing p) :
    (h.session p).1.filterMap writeOf = [] ∧ (h.session p).1.filterMap madeOf = [] := by
  have hnone : ∀ e ∈ (h.session p).1, writeOf e = none ∧ madeOf e = none := by
    intro e he
    have hquery := hp.of_run (run_play respond react p h) e he
    obtain ⟨q, r⟩ := e
    cases q with
    | writeFile path content => exact absurd rfl (hquery path content)
    | _ => exact ⟨rfl, rfl⟩
  exact ⟨List.filterMap_eq_nil_iff.mpr fun e he => (hnone e he).1, List.filterMap_eq_nil_iff.mpr fun e he => (hnone e he).2⟩

end KernelHost

/-! ## One parameter -/

section

variable (config : PluginConfig) (h : KernelHost) (p : KernelParameter)

/-- What an apply means to write to a parameter, if it means to write. -/
def pendingWrite : Option Chars :=
  match planParameter p config (h.observed p.name) with
  | .excepted _ _ => none
  | .setting target => if p.compare.violatedBy target (h.observed p.name) then some target else none

def parameterEvents : List Exchange :=
  ⟨.readFile (procPath p), h.read (procPath p)⟩ ::
    match pendingWrite config h p with
    | some target => [⟨.writeFile (procPath p) target, h.write (procPath p)⟩]
    | none => []

/-- Whether an apply changes the parameter. -/
def changesParameter : Bool := (pendingWrite config h p).isSome && (h.write (procPath p)).isOk

/-- The host with the parameter written. -/
def tuned : KernelHost :=
  match pendingWrite config h p with
  | some target => h.react ⟨.writeFile (procPath p) target, h.write (procPath p)⟩
  | none => h

end

section

variable {config : PluginConfig} {h : KernelHost} {p : KernelParameter}

theorem session_readSysctl : (h.session (readSysctl p)).1 = [⟨.readFile (procPath p), h.read (procPath p)⟩] ∧
    (h.session (readSysctl p)).2.toOption = h.observed p.name ∧ h.afterwards (readSysctl p) = h := by
  unfold readSysctl KernelHost.observed readFile
  rw [show "/proc/sys/".toList ++ procfsKey p.name = procPath p from rfl]
  rw [KernelHost.session_bind, KernelHost.afterwards_bind, KernelHost.session_ask, KernelHost.afterwards_ask]
  show _ ∧ _ ∧ h.afterwards _ = h
  simp only [show h.respond (.readFile (procPath p)) = h.read (procPath p) from rfl]
  cases h.read (procPath p) <;> exact ⟨rfl, rfl, rfl⟩

theorem note_success (st : Progress) (change : Change) :
    (st.note change).changes.all Change.success = (st.changes.all Change.success && change.success) := by
  rw [Progress.note, List.all_append, List.all_cons, List.all_nil, Bool.and_true]

/-- One round of an apply: what it asks, what it keeps of it, and what is left of the host. -/
theorem session_applyParameter (st : Progress) : (h.session (applyParameter config st p)).1 = parameterEvents config h p ∧
    h.afterwards (applyParameter config st p) = tuned config h p ∧
    (h.session (applyParameter config st p)).2.content =
      (planParameter p config (h.observed p.name)).pushConfigSection p st.content ∧
    (h.session (applyParameter config st p)).2.runtimeChanged = (st.runtimeChanged || changesParameter config h p) ∧
    (h.session (applyParameter config st p)).2.changes.all Change.success =
      (st.changes.all Change.success && ((pendingWrite config h p).isNone || (h.write (procPath p)).isOk)) := by
  obtain ⟨hevents, hread, hafter⟩ := @session_readSysctl h p
  unfold applyParameter parameterEvents tuned changesParameter pendingWrite
  rw [KernelHost.session_bind, KernelHost.afterwards_bind, hevents, hafter, hread]
  dsimp only
  cases planParameter p config (h.observed p.name) with
  | excepted value reason =>
    refine ⟨rfl, rfl, rfl, ?_, ?_⟩
    · exact (Bool.or_false _).symm
    · exact note_success _ _
  | setting target =>
    dsimp only
    cases p.compare.violatedBy target (h.observed p.name) with
    | false =>
      rw [if_neg Bool.false_ne_true, if_neg Bool.false_ne_true]
      refine ⟨rfl, rfl, rfl, ?_, ?_⟩
      · exact (Bool.or_false _).symm
      · exact (Bool.and_true _).symm
    | true =>
      rw [if_pos rfl, if_pos rfl]
      unfold writeFile
      rw [KernelHost.session_bind, KernelHost.afterwards_bind, KernelHost.session_ask, KernelHost.afterwards_ask]
      simp only [show h.respond (.writeFile (procPath p) target) = h.write (procPath p) from rfl]
      cases h.write (procPath p) with
      | ok _ => exact ⟨rfl, rfl, rfl, (Bool.or_true _).symm, note_success _ _⟩
      | error e => exact ⟨rfl, rfl, rfl, (Bool.or_false _).symm, note_success _ _⟩

/-! ## The loop -/

/-- Tuning one parameter changes nothing about another. -/
theorem tuned_frame {q : KernelParameter} (hp : p ∈ kernelParams) (hq : q ∈ kernelParams) (hne : q ≠ p) :
    (tuned config h p).read (procPath q) = h.read (procPath q) := by
  unfold tuned
  split
  · refine KernelHost.read_react_ne h fun content heq => hne ?_
    exact procPath_inj hq hp (Query.writeFile.inj heq).1.symm
  · rfl

theorem read_conf_tuned : (tuned config h p).read sysctlHardenerConf = h.read sysctlHardenerConf := by
  unfold tuned
  split
  · exact KernelHost.read_react_ne h fun content heq => procPath_ne_conf p (Query.writeFile.inj heq).1
  · rfl

@[simp] theorem write_tuned : (tuned config h p).write = h.write := by
  unfold tuned
  split
  · exact KernelHost.write_react h _
  · rfl

/-- What is planned for a parameter, and what comes of it, is a matter of what it reads and
of what a write to it meets. -/
theorem planned_congr {h' : KernelHost} (hread : h'.read (procPath p) = h.read (procPath p)) (hwrite : h'.write = h.write) :
    h'.observed p.name = h.observed p.name ∧ pendingWrite config h' p = pendingWrite config h p ∧
      parameterEvents config h' p = parameterEvents config h p ∧ changesParameter config h' p = changesParameter config h p := by
  have hobserved : h'.observed p.name = h.observed p.name := by
    show (h'.read (procPath p)).toOption.map LineText.trim = (h.read (procPath p)).toOption.map LineText.trim
    rw [hread]
  have hpending : pendingWrite config h' p = pendingWrite config h p := by rw [pendingWrite, hobserved, pendingWrite]
  refine ⟨hobserved, hpending, ?_, ?_⟩
  · rw [parameterEvents, hread, hpending, hwrite, parameterEvents]
  · rw [changesParameter, hpending, hwrite, changesParameter]

/-- Whether a run of the loop reports success for a parameter. -/
def settlesParameter (config : PluginConfig) (h : KernelHost) (p : KernelParameter) : Bool :=
  (pendingWrite config h p).isNone || (h.write (procPath p)).isOk

/-- The loop of an apply, from what the host is at its start: no round changes what a later
one reads. -/
theorem session_applyParameters {ps : List KernelParameter} (hsub : ps ⊆ kernelParams) (hnodup : ps.Nodup) (st : Progress) :
    (h.session (ps.foldlM (applyParameter config) st)).1 = ps.flatMap (parameterEvents config h) ∧
      h.afterwards (ps.foldlM (applyParameter config) st) = ps.foldl (tuned config) h ∧
      (h.session (ps.foldlM (applyParameter config) st)).2.content =
        ps.foldl (fun content p => (planParameter p config (h.observed p.name)).pushConfigSection p content) st.content ∧
      (h.session (ps.foldlM (applyParameter config) st)).2.runtimeChanged =
        (st.runtimeChanged || ps.any (changesParameter config h)) ∧
      (h.session (ps.foldlM (applyParameter config) st)).2.changes.all Change.success =
        (st.changes.all Change.success && ps.all (settlesParameter config h)) := by
  induction ps generalizing h st with
  | nil => exact ⟨rfl, rfl, rfl, (Bool.or_false _).symm, (Bool.and_true _).symm⟩
  | cons p ps ih =>
    obtain ⟨hp, hps⟩ := List.cons_subset.mp hsub
    obtain ⟨hnot, hrest⟩ := List.nodup_cons.mp hnodup
    obtain ⟨hevents, hafter, hcontent, hchanged, hsuccess⟩ := @session_applyParameter config h p st
    have hframe : ∀ q ∈ ps, (tuned config h p).observed q.name = h.observed q.name ∧
        pendingWrite config (tuned config h p) q = pendingWrite config h q ∧
        parameterEvents config (tuned config h p) q = parameterEvents config h q ∧
        changesParameter config (tuned config h p) q = changesParameter config h q := by
      intro q hq
      have hne : q ≠ p := fun heq => hnot (heq ▸ hq)
      exact planned_congr (tuned_frame hp (hps hq) hne) write_tuned
    obtain ⟨ihevents, ihafter, ihcontent, ihchanged, ihsuccess⟩ :=
      @ih (tuned config h p) hps hrest (h.session (applyParameter config st p)).2
    rw [List.foldlM_cons, KernelHost.session_bind, KernelHost.afterwards_bind, hafter]
    refine ⟨?_, ?_, ?_, ?_, ?_⟩
    · show (h.session (applyParameter config st p)).1 ++ _ = _
      rw [hevents, ihevents, List.flatMap_cons]
      exact congrArg (parameterEvents config h p ++ ·) (List.flatMap_congr fun q hq => (hframe q hq).2.2.1)
    · rw [ihafter, List.foldl_cons]
    · rw [ihcontent, hcontent, List.foldl_cons]
      exact List.foldl_ext _ _ _ fun content q hq => by rw [(hframe q hq).1]
    · rw [ihchanged, hchanged, List.any_cons, Bool.or_assoc]
      congr 2
      rw [Bool.eq_iff_iff, List.any_eq_true, List.any_eq_true]
      exact exists_congr fun q => and_congr_right fun hq => by rw [(hframe q hq).2.2.2]
    · rw [ihsuccess, hsuccess, List.all_cons, Bool.and_assoc]
      congr 2
      rw [Bool.eq_iff_iff, List.all_eq_true, List.all_eq_true]
      exact forall₂_congr fun q hq => by rw [settlesParameter, (hframe q hq).2.1, write_tuned, settlesParameter]

/-! ## The host after the loop -/

@[simp] theorem refuses_tuned : (tuned config h p).refuses = h.refuses := by
  unfold tuned
  split
  · exact KernelHost.refuses_react h _
  · rfl

/-- What a parameter reads once it is tuned. -/
def tunedRead (config : PluginConfig) (h : KernelHost) (p : KernelParameter) : Except Chars Chars :=
  match pendingWrite config h p, h.write (procPath p), h.refuses (procPath p) with
  | some target, .ok (), none => .ok (target ++ ['\n'])
  | _, _, _ => h.read (procPath p)

theorem read_tuned : (tuned config h p).read (procPath p) = tunedRead config h p := by
  unfold tuned tunedRead
  cases pendingWrite config h p with
  | none => rfl
  | some target =>
    cases hwrite : h.write (procPath p) with
    | error e => rfl
    | ok _ =>
      show (h.store (procPath p) target).read (procPath p) = _
      unfold KernelHost.read KernelHost.store KernelHost.stored
      simp only [if_neg (procPath_ne_conf p), if_true]
      cases h.refuses (procPath p) <;> rfl

/-- Each parameter is left by the loop as it is left by its own round. -/
theorem read_foldl_tuned {ps : List KernelParameter} (hsub : ps ⊆ kernelParams) (hnodup : ps.Nodup) (hp : p ∈ ps) :
    (ps.foldl (tuned config) h).read (procPath p) = tunedRead config h p := by
  have hlater : ∀ {qs : List KernelParameter} (h : KernelHost), qs ⊆ kernelParams → p ∉ qs →
      (qs.foldl (tuned config) h).read (procPath p) = h.read (procPath p) := by
    intro qs
    induction qs with
    | nil => exact fun _ _ _ => rfl
    | cons q qs ih =>
      intro h hqs hnot
      obtain ⟨hq, hqs⟩ := List.cons_subset.mp hqs
      rw [List.foldl_cons, ih _ hqs fun hmem => hnot (List.mem_cons_of_mem q hmem)]
      exact tuned_frame hq (hsub hp) fun heq => hnot (heq ▸ List.mem_cons_self)
  induction ps generalizing h with
  | nil => cases hp
  | cons q ps ih =>
    obtain ⟨hq, hps⟩ := List.cons_subset.mp hsub
    obtain ⟨hnot, hrest⟩ := List.nodup_cons.mp hnodup
    rw [List.foldl_cons]
    rcases List.mem_cons.mp hp with rfl | hmem
    · rw [hlater _ hps hnot, read_tuned]
    · have hne : p ≠ q := fun heq => hnot (heq ▸ hmem)
      rw [ih hps hrest hmem]
      have hread := @tuned_frame config h q p hq (hps hmem) hne
      unfold tunedRead
      rw [(planned_congr hread write_tuned).2.1, hread, write_tuned, refuses_tuned]

theorem frame_foldl_tuned (ps : List KernelParameter) : (ps.foldl (tuned config) h).write = h.write ∧
    (ps.foldl (tuned config) h).refuses = h.refuses ∧
    (ps.foldl (tuned config) h).read sysctlHardenerConf = h.read sysctlHardenerConf := by
  induction ps generalizing h with
  | nil => exact ⟨rfl, rfl, rfl⟩
  | cons p ps ih =>
    obtain ⟨hwrite, hrefuses, hread⟩ := @ih (tuned config h p)
    rw [List.foldl_cons]
    exact ⟨hwrite.trans write_tuned, hrefuses.trans refuses_tuned, hread.trans read_conf_tuned⟩

/-! ## The persistent file -/

/-- Whether the file is to be written. -/
def needsConfig (h : KernelHost) (runtimeChanged : Bool) (content : Chars) : Bool :=
  runtimeChanged || (h.read sysctlHardenerConf).toOption != some content

/-- Whether the write of the file can go through. -/
def configWritable (h : KernelHost) (dirError : Option Chars) : Bool := dirError.isNone && (h.write sysctlHardenerConf).isOk

theorem session_persist (dirError : Option Chars) (changed : Bool) (content : Chars) :
    (h.session (persist dirError changed content)).1.filterMap writeOf =
        (if needsConfig h changed content && dirError.isNone then [(sysctlHardenerConf, content)] else []) ∧
      (h.session (persist dirError changed content)).1.filterMap madeOf =
        (if needsConfig h changed content && configWritable h dirError then [(sysctlHardenerConf, content)] else []) ∧
      h.afterwards (persist dirError changed content) =
        (if needsConfig h changed content && configWritable h dirError then h.store sysctlHardenerConf content else h) ∧
      (h.session (persist dirError changed content)).2.success =
        (!needsConfig h changed content || configWritable h dirError) := by
  unfold persist readFile needsConfig configWritable
  rw [KernelHost.session_bind, KernelHost.afterwards_bind, KernelHost.session_ask, KernelHost.afterwards_ask]
  simp only [show h.respond (.readFile sysctlHardenerConf) = h.read sysctlHardenerConf from rfl,
    show ∀ r, h.react ⟨.readFile sysctlHardenerConf, r⟩ = h from fun r => rfl]
  cases changed || (h.read sysctlHardenerConf).toOption != some content with
  | false => exact ⟨rfl, rfl, rfl, rfl⟩
  | true =>
    rw [if_pos rfl]
    cases dirError with
    | some reason => exact ⟨rfl, rfl, rfl, rfl⟩
    | none =>
      unfold writeConfig writeFile
      rw [KernelHost.session_bind, KernelHost.afterwards_bind, KernelHost.session_ask, KernelHost.afterwards_ask]
      simp only [show h.respond (.writeFile sysctlHardenerConf content) = h.write sysctlHardenerConf from rfl]
      cases h.write sysctlHardenerConf with
      | ok _ => exact ⟨rfl, rfl, rfl, rfl⟩
      | error e => exact ⟨rfl, rfl, rfl, rfl⟩

end

end LinuxHardener.Kernel
