import LinuxHardener.Lib.Permits

/-
  The daemon's scans and its shutdown, over every interleaving of them.

  A scan is asked for by the clock or by hand, at any time, and runs beside whatever else
  the daemon does. It sets a flag by a swap and clears it when the runner has returned. A
  runner that panics, or whose future is dropped, does not return: nothing clears the
  flag for it. The shutdown reads the flag until it finds it clear and stops the
  scheduler then, in a step of its own.

  What is proved:
    1. `one_scan` — no two scans run at once, and the flag is set exactly while one runs
       or after one that did not return.
    2. `abandoned_forever` — after one that did not return no scan starts again, and a
       shutdown that waits goes on waiting.
    3. `cleared_after_scans`, `running_at_stop` — the shutdown gets past its wait when
       every scan begun so far is over; a scan it stops the scheduler under was begun
       between the two.

  Correspondence (Rust ↔ Lean):
    `Daemon::{run_once, execute_scan}` ↔ `Step.start`, `Step.skip`, `Step.finish`
    `Daemon::shutdown_scheduler`       ↔ `Step.clear`, `Step.stop`
-/
namespace LinuxHardener.Scheduler.Daemon

open Permits

/-- Where a scan stands. -/
inductive Phase where
  | asked
  | running
  | finished
  | skipped
  /-- The runner did not return. -/
  | abandoned
  deriving DecidableEq

def Phase.blocks : Phase → Bool
  | .running | .abandoned => true
  | _ => false

inductive Shutdown where
  | waiting
  /-- The flag was read clear. -/
  | cleared
  | stopped
  deriving DecidableEq

inductive Event (ι : Type) where
  | started (i : ι)
  | finished (i : ι)
  | cleared
  | stopped

structure World (ι : Type) where
  /-- `daemon_scan_in_progress` -/
  scanInProgress : Bool
  phase : ι → Phase
  shutdown : Shutdown
  /-- What happened, newest first. -/
  log : List (Event ι)

def World.started (ι : Type) : World ι := ⟨false, fun _ => .asked, .waiting, []⟩

variable {ι : Type} [DecidableEq ι] {w w' : World ι} {i j : ι}

def World.goes (w : World ι) (i : ι) (p : Phase) : World ι := { w with phase := Function.update w.phase i p }

/-- A scan that finds the flag set is refused by hand and skipped by the clock; it leaves the
flag as it is. -/
inductive Step : World ι → World ι → Prop where
  | start {w : World ι} {i : ι} (h : w.phase i = .asked) (hflag : w.scanInProgress = false) (hup : w.shutdown ≠ .stopped) :
      Step w { w.goes i .running with scanInProgress := true, log := .started i :: w.log }
  | skip {w : World ι} {i : ι} (h : w.phase i = .asked) (hflag : w.scanInProgress = true) : Step w (w.goes i .skipped)
  | finish {w : World ι} {i : ι} (h : w.phase i = .running) :
      Step w { w.goes i .finished with scanInProgress := false, log := .finished i :: w.log }
  | abandon {w : World ι} {i : ι} (h : w.phase i = .running) : Step w (w.goes i .abandoned)
  | clear {w : World ι} (h : w.shutdown = .waiting) (hflag : w.scanInProgress = false) :
      Step w { w with shutdown := .cleared, log := .cleared :: w.log }
  | stop {w : World ι} (h : w.shutdown = .cleared) : Step w { w with shutdown := .stopped, log := .stopped :: w.log }

def Reach : World ι → World ι → Prop := Relation.ReflTransGen Step

/-! ## One scan at a time -/

def World.pool (w : World ι) : Pool ι := .ofFlag w.scanInProgress (holding Phase.blocks w.phase)

theorem pool_follows : Follows 1 (Step (ι := ι)) World.pool := by
  intro w w' hacc hs
  cases hs with
  | clear _ _ => exact .inl rfl
  | stop _ => exact .inl rfl
  | @skip i h _ =>
    have hsame : holding Phase.blocks (Function.update w.phase i .skipped) = holding Phase.blocks w.phase :=
      holding_same (by rw [h]; rfl)
    exact .inl (congrArg (Pool.ofFlag w.scanInProgress) hsame)
  | @abandon i h =>
    have hsame : holding Phase.blocks (Function.update w.phase i .abandoned) = holding Phase.blocks w.phase :=
      holding_same (by rw [h]; rfl)
    exact .inl (congrArg (Pool.ofFlag w.scanInProgress) hsame)
  | @start i h hflag _ =>
    have hout : i ∉ holding Phase.blocks w.phase := by simp [h, Phase.blocks]
    have hpool : w.pool = .ofFlag false (holding Phase.blocks w.phase) := by rw [World.pool, hflag]
    rw [hpool]
    refine .inr ?_
    have hset := Step.set hout
    rwa [← holding_enter (p := Phase.running) rfl] at hset
  | @finish i h =>
    have hin : i ∈ holding Phase.blocks w.phase := by simp [h, Phase.blocks]
    have hclear := hacc.clear hin
    rw [← holding_leave (p := Phase.finished) rfl] at hclear
    exact .inr hclear

theorem accounted_of_reach (h : Reach (.started ι) w) : Accounted 1 w.pool := by
  refine pool_follows.accounted ?_ h
  have hidle : (World.started ι).pool = .idle 1 := by
    simp [World.pool, World.started, Pool.ofFlag, Pool.idle, holding, Phase.blocks]
  rw [hidle]
  exact accounted_idle 1

theorem blocks_iff {p : Phase} : p.blocks = true ↔ p = .running ∨ p = .abandoned := by
  cases p <;> simp [Phase.blocks]

theorem scanInProgress_iff (h : Reach (.started ι) w) :
    w.scanInProgress = true ↔ ∃ i, w.phase i = .running ∨ w.phase i = .abandoned := by
  simp only [← blocks_iff]
  exact (accounted_of_reach h).flag_iff

/-- Never two scans at once; and the flag is set while one runs, or after one that did not return. -/
theorem one_scan (h : Reach (.started ι) w) :
    (∀ i j, w.phase i = .running → w.phase j = .running → i = j) ∧
      (w.scanInProgress = true ↔ ∃ i, w.phase i = .running ∨ w.phase i = .abandoned) := by
  have hacc := accounted_of_reach h
  exact ⟨fun i j hi hj => hacc.exclusive (blocks_iff.mpr (.inl hi)) (blocks_iff.mpr (.inl hj)), scanInProgress_iff h⟩

theorem one_scan_running :
    ∃ w : World Unit, Reach (.started Unit) w ∧ w.phase () = .running ∧
      (∀ i j, w.phase i = .running → w.phase j = .running → i = j) ∧
        (w.scanInProgress = true ↔ ∃ i, w.phase i = .running ∨ w.phase i = .abandoned) := by
  have hrun : Reach (.started Unit) _ := Relation.ReflTransGen.refl.tail (.start (i := ()) rfl rfl (by decide))
  exact ⟨_, hrun, rfl, one_scan hrun⟩

/-! ## A scan that does not return -/

/-- Nothing moves any more but the requests that are turned away. -/
structure Stuck (w : World ι) : Prop where
  flag : w.scanInProgress = true
  idle : ∀ j, w.phase j ≠ .running

theorem Stuck.step (h : Stuck w) (hs : Step w w') : Stuck w' ∧ (w.shutdown = .waiting → w'.shutdown = .waiting) := by
  cases hs with
  | start _ hflag _ => exact absurd (h.flag.symm.trans hflag) (by decide)
  | clear _ hflag => exact absurd (h.flag.symm.trans hflag) (by decide)
  | finish hp => exact absurd hp (h.idle _)
  | abandon hp => exact absurd hp (h.idle _)
  | stop hp => exact ⟨⟨h.flag, h.idle⟩, fun hwait => absurd (hwait.symm.trans hp) (by decide)⟩
  | @skip i _ _ =>
    refine ⟨⟨h.flag, fun j hj => ?_⟩, fun hwait => hwait⟩
    by_cases hij : j = i
    · subst hij
      simp [World.goes] at hj
    · simp [World.goes, hij] at hj
      exact h.idle j hj

/-- After a scan that did not return none runs again, and the shutdown does not get past its wait. -/
theorem abandoned_forever (h : Reach (.started ι) w) (hi : w.phase i = .abandoned) (hr : Reach w w') :
    (∀ j, w'.phase j ≠ .running) ∧ (w.shutdown = .waiting → w'.shutdown = .waiting) := by
  have hacc := accounted_of_reach h
  have hstuck : Stuck w := by
    refine ⟨(scanInProgress_iff h).mpr ⟨i, .inr hi⟩, fun j hj => ?_⟩
    have hij : i = j := hacc.exclusive (blocks_iff.mpr (.inr hi)) (blocks_iff.mpr (.inl hj))
    subst hij
    rw [hi] at hj
    cases hj
  have hkeep : Stuck w' ∧ (w.shutdown = .waiting → w'.shutdown = .waiting) := by
    induction hr with
    | refl => exact ⟨hstuck, id⟩
    | tail _ hs ih =>
      obtain ⟨hnext, hwait⟩ := ih.1.step hs
      exact ⟨hnext, fun h => hwait (ih.2 h)⟩
  exact ⟨hkeep.1.idle, hkeep.2⟩

/-- A scan panics, another is asked for. -/
theorem abandoned_forever_asked :
    ∃ w w' : World Bool, w.phase false = .abandoned ∧ Reach w w' ∧ w'.phase true = .skipped ∧
      (∀ j, w'.phase j ≠ .running) ∧ (w.shutdown = .waiting → w'.shutdown = .waiting) := by
  have hpanic : Reach (.started Bool) _ :=
    (Relation.ReflTransGen.refl.tail (.start (i := false) rfl rfl (by decide))).tail (.abandon (i := false) rfl)
  obtain ⟨w, hrun, hi, hasked, hflag⟩ : ∃ w : World Bool, Reach (.started Bool) w ∧ w.phase false = .abandoned ∧
      w.phase true = .asked ∧ w.scanInProgress = true := ⟨_, hpanic, rfl, rfl, rfl⟩
  have hlater := Relation.ReflTransGen.single (Step.skip hasked hflag)
  exact ⟨w, _, hi, hlater, by simp [World.goes], abandoned_forever hrun hi hlater⟩

/-! ## The shutdown -/

/-- What the log says of where the scans and the shutdown stand. -/
structure Kept (w : World ι) : Prop where
  started : ∀ i, .started i ∈ w.log → w.phase i = .running ∨ w.phase i = .finished ∨ w.phase i = .abandoned
  finished : ∀ i, w.phase i = .finished → .finished i ∈ w.log
  waited : w.shutdown = .cleared → .cleared ∈ w.log
  cleared : ∀ newer older, w.log = newer ++ .cleared :: older → ∀ i, .started i ∈ older → .finished i ∈ older
  stopped : ∀ newer older, w.log = newer ++ .stopped :: older → .cleared ∈ older

omit [DecidableEq ι] in
theorem kept_started : Kept (.started ι) where
  started := nofun
  finished := nofun
  waited := nofun
  cleared := by
    intro newer older h
    simp [World.started] at h
  stopped := by
    intro newer older h
    simp [World.started] at h

omit [DecidableEq ι] in
/-- An entry of a log is the newest one, or one of those before it. -/
theorem split_newest {e x : Event ι} {log newer older : List (Event ι)} (h : e :: log = newer ++ x :: older) :
    (e = x ∧ log = older) ∨ ∃ newer', log = newer' ++ x :: older := by
  cases newer with
  | nil =>
    obtain ⟨hx, hlog⟩ := List.cons.inj h
    exact .inl ⟨hx, hlog⟩
  | cons _ newer' => exact .inr ⟨newer', (List.cons.inj h).2⟩

/-- A scan that begins or ends. -/
theorem Kept.logs (h : Kept w) {p : Phase} {flag : Bool} {e : Event ι} (he : e = .started i ∨ e = .finished i)
    (hbegun : p = .running ∨ p = .finished ∨ p = .abandoned) (hover : p = .finished → e = .finished i) :
    Kept { w.goes i p with scanInProgress := flag, log := e :: w.log } where
  started := by
    intro j hj
    by_cases hij : j = i
    · subst hij
      simpa [World.goes] using hbegun
    · have hold : Event.started j ∈ w.log := by
        cases hj with
        | head => rcases he with he | he <;> cases he; exact absurd rfl hij
        | tail _ hmem => exact hmem
      simpa [World.goes, hij] using h.started j hold
  finished := by
    intro j hj
    by_cases hij : j = i
    · subst hij
      rw [hover (by simpa [World.goes] using hj)]
      exact List.mem_cons_self
    · simp [World.goes, hij] at hj
      exact List.mem_cons_of_mem _ (h.finished j hj)
  waited := fun hs => List.mem_cons_of_mem _ (h.waited hs)
  cleared := by
    intro newer older hlog
    rcases split_newest hlog with ⟨hx, -⟩ | ⟨newer', hrest⟩
    · rcases he with he | he <;> rw [hx] at he <;> cases he
    · exact h.cleared newer' older hrest
  stopped := by
    intro newer older hlog
    rcases split_newest hlog with ⟨hx, -⟩ | ⟨newer', hrest⟩
    · rcases he with he | he <;> rw [hx] at he <;> cases he
    · exact h.stopped newer' older hrest

/-- A scan that says nothing of where it goes. -/
theorem Kept.goes (h : Kept w) {p q : Phase} (hq : w.phase i = q) (hkeep : q = .running → p = .abandoned)
    (hstay : q ≠ .finished ∧ q ≠ .abandoned) (hp : p ≠ .finished) : Kept (w.goes i p) where
  started := by
    intro j hj
    have hold := h.started j hj
    by_cases hij : j = i
    · subst hij
      rw [hq] at hold
      have hrunning : q = .running := by
        rcases hold with hr | hf | ha
        · exact hr
        · exact absurd hf hstay.1
        · exact absurd ha hstay.2
      simp [World.goes, hkeep hrunning]
    · simpa [World.goes, hij] using hold
  finished := by
    intro j hj
    by_cases hij : j = i
    · subst hij
      simp [World.goes] at hj
      exact absurd hj hp
    · simp [World.goes, hij] at hj
      exact h.finished j hj
  waited := h.waited
  cleared := h.cleared
  stopped := h.stopped

theorem Kept.step (h : Kept w) (hflag : w.scanInProgress = false → ∀ i, w.phase i ≠ .running ∧ w.phase i ≠ .abandoned)
    (hs : Step w w') : Kept w' := by
  cases hs with
  | start _ _ _ => exact h.logs (.inl rfl) (.inl rfl) nofun
  | finish _ => exact h.logs (.inr rfl) (.inr (.inl rfl)) fun _ => rfl
  | skip hp _ => exact h.goes hp nofun ⟨nofun, nofun⟩ nofun
  | abandon hp => exact h.goes hp (fun _ => rfl) ⟨nofun, nofun⟩ nofun
  | clear hp hclear =>
    refine ⟨fun i hi => h.started i ?_, fun i hi => List.mem_cons_of_mem _ (h.finished i hi), fun _ => List.mem_cons_self, ?_, ?_⟩
    · cases hi with
      | tail _ hmem => exact hmem
    · intro newer older hlog i hi
      rcases split_newest hlog with ⟨-, rfl⟩ | ⟨newer', hrest⟩
      · -- The flag is clear: what has begun is over.
        rcases h.started i hi with hr | hf | ha
        · exact absurd hr (hflag hclear i).1
        · exact h.finished i hf
        · exact absurd ha (hflag hclear i).2
      · exact h.cleared newer' older hrest i hi
    · intro newer older hlog
      rcases split_newest hlog with ⟨hx, -⟩ | ⟨newer', hrest⟩
      · cases hx
      · exact h.stopped newer' older hrest
  | stop hp =>
    refine ⟨fun i hi => h.started i ?_, fun i hi => List.mem_cons_of_mem _ (h.finished i hi), nofun, ?_, ?_⟩
    · cases hi with
      | tail _ hmem => exact hmem
    · intro newer older hlog
      rcases split_newest hlog with ⟨hx, -⟩ | ⟨newer', hrest⟩
      · cases hx
      · exact h.cleared newer' older hrest
    · intro newer older hlog
      rcases split_newest hlog with ⟨-, rfl⟩ | ⟨newer', hrest⟩
      · exact h.waited hp
      · exact h.stopped newer' older hrest

theorem kept_of_reach (h : Reach (.started ι) w) : Kept w := by
  induction h with
  | refl => exact kept_started
  | tail hr hs ih =>
    refine ih.step (fun hclear i => ?_) hs
    have hnone : ¬ ∃ i, _ ∨ _ := fun hsome => absurd ((scanInProgress_iff hr).mpr hsome) (by rw [hclear]; decide)
    exact ⟨fun hrun => hnone ⟨i, .inl hrun⟩, fun habandoned => hnone ⟨i, .inr habandoned⟩⟩

/-- The shutdown gets past its wait when every scan begun so far is over. -/
theorem cleared_after_scans (h : Reach (.started ι) w) {newer older : List (Event ι)} (hlog : w.log = newer ++ .cleared :: older)
    (hi : .started i ∈ older) : .finished i ∈ older :=
  (kept_of_reach h).cleared newer older hlog i hi

/-- A scan the scheduler is stopped under was begun after the shutdown had found none. -/
theorem running_at_stop (h : Reach (.started ι) w) {newer older : List (Event ι)} (hlog : w.log = newer ++ .stopped :: older)
    (hi : .started i ∈ older) (hover : .finished i ∉ older) :
    ∃ since before, older = since ++ .cleared :: before ∧ .started i ∈ since := by
  have hkept := kept_of_reach h
  obtain ⟨since, before, hsplit⟩ := List.append_of_mem (hkept.stopped newer older hlog)
  refine ⟨since, before, hsplit, ?_⟩
  have hbefore : .started i ∈ before → .finished i ∈ before := by
    refine hkept.cleared (newer ++ .stopped :: since) before ?_ i
    rw [hlog, hsplit, List.append_assoc, List.cons_append]
  rw [hsplit, List.mem_append, List.mem_cons] at hi
  rcases hi with hsince | hcleared | hold
  · exact hsince
  · cases hcleared
  · rw [hsplit] at hover
    exact absurd (List.mem_append_right since (List.mem_cons_of_mem _ (hbefore hold))) hover

/-- The clock asks for a scan right after the shutdown has looked. -/
theorem running_at_stop_begun_late :
    ∃ since before, [Event.started (), .cleared] = since ++ .cleared :: before ∧ .started () ∈ since := by
  have hrun : Reach (.started Unit) _ :=
    ((Relation.ReflTransGen.refl.tail (.clear rfl rfl)).tail (.start (i := ()) rfl rfl (by decide))).tail (.stop rfl)
  exact running_at_stop hrun (List.nil_append _).symm List.mem_cons_self (by simp)

end LinuxHardener.Scheduler.Daemon
