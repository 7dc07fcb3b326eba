import LinuxHardener.Lib.Permits
import LinuxHardener.Lib.TextRuns

/-
  The guard of the desktop's privileged commands, over every interleaving of them.

  The commands run side by side. Each reads the clock, then the time the last operation
  completed, then swaps the flag, and between any two of these the others take their
  steps. The clock is the wall clock: it may be set to anything.

  What is proved:
    1. `one_at_a_time` — at most one command is inside the guard, and the flag is set
       exactly while one is, so that no way out of a command leaves it set behind it.
    2. `started_admitted` — every operation was let through at a moment when the last one
       on record was five seconds old by the clock the command had read.
    3. `rushed_overtaken` — and so one that starts sooner was overtaken: another completed
       between its look at the clock's record and its swap of the flag.
    4. `parse_refused` — of the two refusals the interface reads the waiting time out of
       the one that names it, whatever the command wrapped it in, and no time out of the
       other.

  Correspondence (Rust ↔ Lean):
    `PrivilegedOpGuard::acquire`                ↔ `cooldown` and the steps up to `take`
    `mark_privileged_operation_completed`       ↔ `Step.finish`, `Step.mark`
    `Drop for PrivilegedOpGuard`                ↔ `Step.drop`
    `utils::parse_rate_limit_wait_secs`         ↔ `parseRateLimitWaitSecs`
-/
namespace LinuxHardener.Desktop.PrivilegedOps

open LineText Permits TextRuns

def privilegedOpCooldownSecs : Nat := 5

def rateLimitFront : Chars := "Rate limit: please wait ".toList

def rateLimitBack : Chars := " seconds before the next privileged operation.".toList

def rateLimitMessage (wait : Nat) : Chars := rateLimitFront ++ decimal wait ++ rateLimitBack

def busyMessage : Chars := "Another privileged operation is already in progress. Please wait.".toList

/-- The first half of `acquire`, by the clock and the record it read. -/
def cooldown (now last : Nat) : Except Chars Unit :=
  let elapsed := now - last
  if last > 0 ∧ elapsed < privilegedOpCooldownSecs then .error (rateLimitMessage (privilegedOpCooldownSecs - elapsed))
  else .ok ()

theorem cooldown_eq_ok {now last : Nat} : cooldown now last = .ok () ↔ last = 0 ∨ last + privilegedOpCooldownSecs ≤ now := by
  unfold cooldown privilegedOpCooldownSecs
  dsimp only
  split <;> simp <;> omega

/-! ## The commands and what they share -/

/-- Where a command stands. -/
inductive Phase where
  | idle
  /-- In `acquire`, behind the clock. -/
  | clocked (now : Nat)
  /-- In `acquire`, behind the cooldown. -/
  | admitted (now last : Nat)
  /-- The guard is held. -/
  | inside
  /-- `pkexec` came back, and the clock is read. -/
  | finished (now : Nat)

/-- The guard lives. -/
def Phase.guarded : Phase → Bool
  | .inside | .finished _ => true
  | _ => false

inductive Event (ι : Type) where
  | admitted (i : ι) (now last : Nat)
  | refused (i : ι) (message : Chars)
  | started (i : ι) (now last : Nat)
  | completed (i : ι) (time : Nat)
  | dropped (i : ι)

def Event.command {ι : Type} : Event ι → ι
  | .admitted i _ _ | .refused i _ | .started i _ _ | .completed i _ | .dropped i => i

structure World (ι : Type) where
  /-- `PRIVILEGED_OP_RUNNING` -/
  running : Bool
  /-- `PRIVILEGED_OP_LAST_COMPLETED` -/
  lastCompleted : Nat
  clock : Nat
  phase : ι → Phase
  /-- What happened, newest first. -/
  log : List (Event ι)

variable {ι : Type} [DecidableEq ι] {w w' : World ι} {i j : ι}

/-- The desktop has just been started. -/
def World.opened (clock : Nat) : World ι := ⟨false, 0, clock, fun _ => .idle, []⟩

def World.goes (w : World ι) (i : ι) (p : Phase) : World ι := { w with phase := Function.update w.phase i p }

def World.logs (w : World ι) (e : Event ι) : World ι := { w with log := e :: w.log }

inductive Step : World ι → World ι → Prop where
  | tick {w : World ι} (t : Nat) : Step w { w with clock := t }
  | clock {w : World ι} {i : ι} (h : w.phase i = .idle) : Step w (w.goes i (.clocked w.clock))
  | tooSoon {w : World ι} {i : ι} {now : Nat} {message : Chars} (h : w.phase i = .clocked now)
      (hc : cooldown now w.lastCompleted = .error message) : Step w ((w.goes i .idle).logs (.refused i message))
  | admits {w : World ι} {i : ι} {now : Nat} (h : w.phase i = .clocked now) (hc : cooldown now w.lastCompleted = .ok ()) :
      Step w ((w.goes i (.admitted now w.lastCompleted)).logs (.admitted i now w.lastCompleted))
  | busy {w : World ι} {i : ι} {now last : Nat} (h : w.phase i = .admitted now last) (hr : w.running = true) :
      Step w ((w.goes i .idle).logs (.refused i busyMessage))
  | take {w : World ι} {i : ι} {now last : Nat} (h : w.phase i = .admitted now last) (hr : w.running = false) :
      Step w ({ w.goes i .inside with running := true }.logs (.started i now last))
  | finish {w : World ι} {i : ι} (h : w.phase i = .inside) : Step w (w.goes i (.finished w.clock))
  | mark {w : World ι} {i : ι} {now : Nat} (h : w.phase i = .finished now) :
      Step w ({ w.goes i .inside with lastCompleted := now }.logs (.completed i now))
  | drop {w : World ι} {i : ι} (h : w.phase i = .inside) : Step w ({ w.goes i .idle with running := false }.logs (.dropped i))

def Reach : World ι → World ι → Prop := Relation.ReflTransGen Step

/-! ## One at a time -/

/-- The flag, and the commands inside the guard. -/
def World.pool (w : World ι) : Pool ι := .ofFlag w.running (holding Phase.guarded w.phase)

theorem pool_follows : Follows 1 (Step (ι := ι)) World.pool := by
  intro w w' hacc hs
  -- Most steps leave their command on the side of the guard it is on.
  have hsame : ∀ {i : ι} {p q : Phase}, w.phase i = q → q.guarded = p.guarded →
      Pool.ofFlag w.running (holding Phase.guarded (Function.update w.phase i p)) = w.pool := by
    intro i p q h hq
    rw [holding_same (by rw [h, hq])]
    rfl
  cases hs with
  | tick t => exact .inl rfl
  | clock h => exact .inl (hsame h rfl)
  | tooSoon h _ => exact .inl (hsame h rfl)
  | admits h _ => exact .inl (hsame h rfl)
  | busy h _ => exact .inl (hsame h rfl)
  | finish h => exact .inl (hsame h rfl)
  | mark h => exact .inl (hsame h rfl)
  | @take i now last h hr =>
    have hout : i ∉ holding Phase.guarded w.phase := by simp [h, Phase.guarded]
    have hpool : w.pool = .ofFlag false (holding Phase.guarded w.phase) := by rw [World.pool, hr]
    have hpool' : ({ w.goes i .inside with running := true }.logs (.started i now last)).pool =
        .ofFlag true (insert i (holding Phase.guarded w.phase)) := congrArg (Pool.ofFlag true) (holding_enter rfl)
    rw [hpool, hpool']
    exact .inr (.set hout)
  | @drop i h =>
    have hin : i ∈ holding Phase.guarded w.phase := by simp [h, Phase.guarded]
    have hpool' : ({ w.goes i .idle with running := false }.logs (.dropped i)).pool =
        .ofFlag false (holding Phase.guarded w.phase \ {i}) := congrArg (Pool.ofFlag false) (holding_leave rfl)
    rw [hpool']
    exact .inr (hacc.clear hin)

theorem accounted_of_reach {clock : Nat} (h : Reach (.opened clock) w) : Accounted 1 w.pool := by
  refine pool_follows.accounted ?_ h
  have hidle : (World.opened clock : World ι).pool = .idle 1 := by
    simp [World.pool, World.opened, Pool.ofFlag, Pool.idle, holding, Phase.guarded]
  rw [hidle]
  exact accounted_idle 1

/-- Never two operations at once; and the flag is set while there is one, and only then. -/
theorem one_at_a_time {clock : Nat} (h : Reach (.opened clock) w) :
    (∀ i j, (w.phase i).guarded = true → (w.phase j).guarded = true → i = j) ∧
      (w.running = true ↔ ∃ i, (w.phase i).guarded = true) :=
  have hacc := accounted_of_reach h
  ⟨fun _ _ hi hj => hacc.exclusive hi hj, hacc.flag_iff⟩

theorem one_at_a_time_started :
    ∃ w : World Bool, Reach (.opened 10) w ∧ (w.phase false).guarded = true ∧
      (∀ i j, (w.phase i).guarded = true → (w.phase j).guarded = true → i = j) ∧
        (w.running = true ↔ ∃ i, (w.phase i).guarded = true) := by
  have hstarted : Reach (World.opened 10 : World Bool) _ :=
    ((Relation.ReflTransGen.refl.tail (.clock (i := false) rfl)).tail (.admits (i := false) rfl rfl)).tail
      (.take (i := false) rfl rfl)
  exact ⟨_, hstarted, rfl, one_at_a_time hstarted⟩

/-! ## The pace -/

/-- The time the last completed operation left, zero before the first. -/
def lastCompletion : List (Event ι) → Nat
  | [] => 0
  | .completed _ time :: _ => time
  | _ :: older => lastCompletion older

/-- `since` is what happened after `i` was let through; none of it was its own doing. -/
structure Admitted (i : ι) (now last : Nat) (log since before : List (Event ι)) : Prop where
  split : log = since ++ .admitted i now last :: before
  others : ∀ e ∈ since, e.command ≠ i
  record : last = lastCompletion before
  paced : last = 0 ∨ last + privilegedOpCooldownSecs ≤ now

omit [DecidableEq ι] in
theorem Admitted.later {now last : Nat} {log since before : List (Event ι)} (h : Admitted i now last log since before)
    {e : Event ι} (he : e.command ≠ i) : Admitted i now last (e :: log) (e :: since) before where
  split := by rw [h.split, List.cons_append]
  others := by
    intro e' he'
    cases he' with
    | head => exact he
    | tail _ hmem => exact h.others e' hmem
  record := h.record
  paced := h.paced

/-- The record is the last completion's, and whoever stands between the cooldown and the
flag, or started, was let through by what it remembers. -/
structure Kept (w : World ι) : Prop where
  record : w.lastCompleted = lastCompletion w.log
  waiting : ∀ i now last, w.phase i = .admitted now last → ∃ since before, Admitted i now last w.log since before
  started : ∀ i now last newer older, w.log = newer ++ .started i now last :: older →
    ∃ since before, Admitted i now last older since before

omit [DecidableEq ι] in
theorem kept_opened (clock : Nat) : Kept (.opened clock : World ι) where
  record := rfl
  waiting := by
    intro i now last h
    simp [World.opened] at h
  started := by
    intro i now last newer older h
    simp [World.opened] at h

/-- A command that takes a step of its own and says nothing. -/
theorem Kept.goes (h : Kept w) (i : ι) {p : Phase} (hp : ∀ now last, p ≠ .admitted now last) : Kept (w.goes i p) where
  record := h.record
  waiting := by
    intro j now last hj
    by_cases hij : j = i
    · subst hij
      simp [World.goes] at hj
      exact absurd hj (hp now last)
    · simp [World.goes, hij] at hj
      exact h.waiting j now last hj
  started := h.started

/-- A command that takes a step of its own and says so. -/
theorem Kept.logs (h : Kept w) {e : Event ι} {p : Phase} {running : Bool} {record : Nat}
    (hrecord : record = lastCompletion (e :: w.log))
    (hwaiting : ∀ now last, p = .admitted now last → ∃ since before, Admitted e.command now last (e :: w.log) since before)
    (hstarted : ∀ now last, e = .started e.command now last → ∃ since before, Admitted e.command now last w.log since before) :
    Kept ({ w.goes e.command p with running := running, lastCompleted := record }.logs e) where
  record := hrecord
  waiting := by
    intro j now last hj
    by_cases hij : j = e.command
    · subst hij
      simp [World.goes, World.logs] at hj
      exact hwaiting now last hj
    · simp [World.goes, World.logs, hij] at hj
      obtain ⟨since, before, hadm⟩ := h.waiting j now last hj
      exact ⟨e :: since, before, hadm.later fun heq => hij heq.symm⟩
  started := by
    intro j now last newer older hlog
    cases newer with
    | nil =>
      obtain ⟨rfl, rfl⟩ := List.cons.inj hlog
      exact hstarted now last rfl
    | cons first newer =>
      obtain ⟨-, hrest⟩ := List.cons.inj hlog
      exact h.started j now last newer older hrest

theorem Kept.step (h : Kept w) (hs : Step w w') : Kept w' := by
  cases hs with
  | tick t => exact ⟨h.record, h.waiting, h.started⟩
  | clock _ => exact h.goes _ nofun
  | finish _ => exact h.goes _ nofun
  | @tooSoon i now message _ _ => exact h.logs (e := .refused i message) h.record nofun nofun
  | @busy i now last _ _ => exact h.logs (e := .refused i busyMessage) h.record nofun nofun
  | @drop i _ => exact h.logs (e := .dropped i) h.record nofun nofun
  | @mark i now _ => exact h.logs (e := .completed i now) rfl nofun nofun
  | @admits i now _ hc =>
    refine h.logs (e := .admitted i now w.lastCompleted) h.record (fun now' last' heq => ?_) nofun
    cases heq
    exact ⟨[], w.log, rfl, nofun, h.record, cooldown_eq_ok.mp hc⟩
  | @take i now last hphase _ =>
    refine h.logs (e := .started i now last) h.record nofun fun now' last' heq => ?_
    cases heq
    exact h.waiting i now last hphase

theorem kept_of_reach {clock : Nat} (h : Reach (.opened clock) w) : Kept w := by
  induction h with
  | refl => exact kept_opened clock
  | tail _ hs ih => exact ih.step hs

/-- Whoever started was let through, and by the record as it stood then. -/
theorem started_admitted {clock : Nat} (h : Reach (.opened clock) w) {now last : Nat} {newer older : List (Event ι)}
    (hlog : w.log = newer ++ .started i now last :: older) :
    ∃ since before, older = since ++ .admitted i now last :: before ∧ (∀ e ∈ since, e.command ≠ i) ∧
      (lastCompletion before = 0 ∨ lastCompletion before + privilegedOpCooldownSecs ≤ now) := by
  obtain ⟨since, before, hadm⟩ := (kept_of_reach h).started i now last newer older hlog
  exact ⟨since, before, hadm.split, hadm.others, hadm.record ▸ hadm.paced⟩

omit [DecidableEq ι] in
theorem lastCompletion_append {newer older : List (Event ι)} (h : ∀ j t, Event.completed j t ∉ newer) :
    lastCompletion (newer ++ older) = lastCompletion older := by
  induction newer with
  | nil => rfl
  | cons e newer ih =>
    have hrest := ih fun j t hmem => h j t (List.mem_cons_of_mem e hmem)
    cases e with
    | completed j t => exact absurd List.mem_cons_self (h j t)
    | admitted => exact hrest
    | refused => exact hrest
    | started => exact hrest
    | dropped => exact hrest

/-- An operation that starts sooner than the pace allows was overtaken: another completed after
it had been let through. -/
theorem rushed_overtaken {clock : Nat} (h : Reach (.opened clock) w) {now last : Nat} {newer older : List (Event ι)}
    (hlog : w.log = newer ++ .started i now last :: older) (hsome : lastCompletion older ≠ 0)
    (hsoon : now < lastCompletion older + privilegedOpCooldownSecs) :
    ∃ since before, older = since ++ .admitted i now last :: before ∧ ∃ j t, j ≠ i ∧ .completed j t ∈ since := by
  obtain ⟨since, before, hsplit, hothers, hpaced⟩ := started_admitted h hlog
  refine ⟨since, before, hsplit, ?_⟩
  by_contra hnone
  have hquiet : ∀ j t, Event.completed j t ∉ since := by
    intro j t hmem
    exact hnone ⟨j, t, hothers _ hmem, hmem⟩
  have hsame : lastCompletion older = lastCompletion before := by
    rw [hsplit, lastCompletion_append hquiet]
    rfl
  omega

/-- Both commands look before the first starts; the second then starts with the first's
completion less than a second old. -/
theorem second_start_overtaken :
    ∃ since before, [Event.dropped false, .completed false 10, .started false 10 0, .admitted true 10 0, .admitted false 10 0] =
        since ++ .admitted true 10 0 :: before ∧ ∃ j t, j ≠ true ∧ .completed j t ∈ since := by
  have hadmitted : Reach (World.opened 10 : World Bool) _ :=
    ((((Relation.ReflTransGen.refl.tail (.clock (i := false) rfl)).tail (.admits (i := false) rfl rfl)).tail
      (.clock (i := true) rfl)).tail (.admits (i := true) rfl rfl))
  have hcompleted : Reach (World.opened 10 : World Bool) _ :=
    (((hadmitted.tail (.take (i := false) rfl rfl)).tail (.finish (i := false) rfl)).tail (.mark (i := false) rfl)).tail
      (.drop (i := false) rfl)
  have hstarted := hcompleted.tail (.take (i := true) rfl rfl)
  exact rushed_overtaken hstarted (List.nil_append _).symm (by decide) (by decide)

/-! ## What the interface reads out of a refusal -/

def rateLimitPrefix : Chars := "Rate limit: please wait ".toList

def secondsWord : Chars := " seconds".toList

/-- What stands before the next `sep`, or all of it. -/
def upTo (sep s : Chars) : Chars := (splitOnceAt sep s).elim s Prod.fst

/-- The number that stands behind the first `front`, before the next `front` or `back`. -/
def numberBetween (front back err : Chars) : Option Nat := do
  let (_, behind) ← splitOnceAt front err
  parseUnsigned (2 ^ 64) (upTo back (upTo front behind))

/-- `parse_rate_limit_wait_secs` -/
def parseRateLimitWaitSecs (err : Chars) : Option Nat := numberBetween rateLimitPrefix secondsWord err

/-- No text that begins with a character of its own kind runs into the one before it. -/
theorem not_infix_append {u v : Chars} (hhead : ∀ c, v.head? = some c → c ∉ rateLimitPrefix) (hu : ¬ rateLimitPrefix <:+: u)
    (hv : ¬ rateLimitPrefix <:+: v) : ¬ rateLimitPrefix <:+: u ++ v := by
  induction u with
  | nil => exact hv
  | cons c u ih =>
    intro h
    rcases List.infix_cons_iff.mp h with hstart | hrest
    · have hkind := prefix_append_iff (p := fun c => decide (c ∈ rateLimitPrefix)) (u := c :: u) (v := v)
        (fun c hc => decide_eq_true hc) fun c hc => decide_eq_false (hhead c hc)
      exact hu (hkind.mp hstart).isInfix
    · exact ih (fun hin => hu (hin.trans (List.suffix_cons c u).isInfix)) hrest

theorem splitOnceAt_eq_none {sep s : Chars} (h : ¬ sep <:+: s) : splitOnceAt sep s = none := by
  cases hs : splitOnceAt sep s with
  | none => rfl
  | some cut => exact absurd (splitOnceAt_some hs ▸ ⟨cut.1, cut.2, rfl⟩) h

/-- A separator that begins with a character it has only there is found where it stands first. -/
theorem splitOnceAt_append {c : Char} {t head : Chars} (hc : c ∉ t) (h : ¬ (c :: t) <:+: head) (tail : Chars) :
    splitOnceAt (c :: t) (head ++ (c :: t) ++ tail) = some (head, tail) := by
  induction head with
  | nil =>
    have hprefix : (c :: t).isPrefixOf (c :: (t ++ tail)) = true := List.isPrefixOf_iff_prefix.mpr (List.prefix_append (c :: t) tail)
    have hdrop : (c :: (t ++ tail)).drop (c :: t).length = tail := List.drop_left
    change splitOnceAt (c :: t) (c :: (t ++ tail)) = _
    rw [splitOnceAt, if_pos hprefix, hdrop]
  | cons d head ih =>
    have hrest : ¬ (c :: t) <:+: head := fun hin => h (hin.trans (List.suffix_cons d head).isInfix)
    have hnot : ¬ (c :: t).isPrefixOf (d :: (head ++ (c :: t) ++ tail)) = true := by
      intro hstart
      obtain ⟨rfl, ht⟩ := List.cons_prefix_cons.mp (List.isPrefixOf_iff_prefix.mp hstart)
      have hkind := prefix_append_iff (p := fun a => decide (a ∈ t)) (u := head) (v := c :: t ++ tail)
        (fun a ha => decide_eq_true ha) fun a ha => by cases ha; exact decide_eq_false hc
      rw [List.append_assoc] at ht
      exact h (List.cons_prefix_cons.mpr ⟨rfl, hkind.mp ht⟩).isInfix
    change splitOnceAt (c :: t) (d :: (head ++ (c :: t) ++ tail)) = _
    rw [splitOnceAt, if_neg hnot, ih hrest]
    rfl

theorem not_infix_of_not_mem {c : Char} {t s : Chars} (h : c ∉ s) : ¬ (c :: t) <:+: s :=
  fun hin => h (hin.subset List.mem_cons_self)

theorem upTo_of_absent {sep s : Chars} (h : ¬ sep <:+: s) : upTo sep s = s := by
  rw [upTo, splitOnceAt_eq_none h]
  rfl

theorem upTo_append {c : Char} {t head : Chars} (hc : c ∉ t) (hhead : c ∉ head) (tail : Chars) :
    upTo (c :: t) (head ++ (c :: t) ++ tail) = head := by
  rw [upTo, splitOnceAt_append hc (not_infix_of_not_mem hhead)]
  rfl

/-- Whatever stands in front, the number is found again. -/
theorem numberBetween_append {c d : Char} {t u context tail : Chars} (hc : c ∉ t) (hd : d ∉ u) (hctx : ¬ (c :: t) <:+: context)
    {n : Nat} (hn : n < 2 ^ 64) (hcn : c ∉ decimal n) (hdn : d ∉ decimal n) (htail : c ∉ d :: u ++ tail) :
    numberBetween (c :: t) (d :: u) (context ++ ((c :: t) ++ decimal n ++ (d :: u ++ tail))) = some n := by
  have hbehind : c ∉ decimal n ++ (d :: u ++ tail) := by
    intro hmem
    rcases List.mem_append.mp hmem with hdigit | hrest
    · exact hcn hdigit
    · exact htail hrest
  have hsplit : splitOnceAt (c :: t) (context ++ ((c :: t) ++ decimal n ++ (d :: u ++ tail))) =
      some (context, decimal n ++ (d :: u ++ tail)) := by
    rw [List.append_assoc (c :: t), ← List.append_assoc context]
    exact splitOnceAt_append hc hctx _
  rw [numberBetween, hsplit]
  change parseUnsigned (2 ^ 64) (upTo (d :: u) (upTo (c :: t) (decimal n ++ (d :: u ++ tail)))) = _
  rw [upTo_of_absent (not_infix_of_not_mem hbehind), ← List.append_assoc, upTo_append hd hdn]
  exact parseUnsigned_decimal hn

theorem rateLimitPrefix_eq : rateLimitPrefix = 'R' :: "ate limit: please wait ".toList := by decide +kernel

theorem rateLimitFront_eq : rateLimitFront = rateLimitPrefix := rfl

theorem secondsWord_eq : secondsWord = ' ' :: "seconds".toList := by decide +kernel

theorem rateLimitBack_eq : rateLimitBack = secondsWord ++ " before the next privileged operation.".toList := by decide +kernel

/-- A waiting time is read back from behind the words that announce it. -/
theorem parse_rateLimitMessage {context : Chars} (hctx : ¬ rateLimitPrefix <:+: context) {wait : Nat} (hwait : wait < 2 ^ 64) :
    parseRateLimitWaitSecs (context ++ rateLimitMessage wait) = some wait := by
  have hfirst : 'R' ∉ "ate limit: please wait ".toList := by decide +kernel
  have hblank : ' ' ∉ "seconds".toList := by decide +kernel
  have hrest : 'R' ∉ ' ' :: "seconds".toList ++ " before the next privileged operation.".toList := by decide +kernel
  have hletter : 'R' ∉ decimal wait := fun hmem => absurd (isDigit_decimal hmem) (by decide)
  have hspace : ' ' ∉ decimal wait := fun hmem => absurd (isDigit_decimal hmem) (by decide)
  rw [rateLimitPrefix_eq] at hctx
  rw [parseRateLimitWaitSecs, rateLimitMessage, rateLimitFront_eq, rateLimitBack_eq, rateLimitPrefix_eq, secondsWord_eq]
  exact numberBetween_append hfirst hblank hctx hwait hletter hspace hrest

/-- The refusal that names a time is read back, and the other is not taken for it. -/
theorem parse_refused {context : Chars} (hctx : ¬ rateLimitPrefix <:+: context) :
    (∀ now last message, cooldown now last = .error message →
        parseRateLimitWaitSecs (context ++ message) = some (last + privilegedOpCooldownSecs - max now last)) ∧
      parseRateLimitWaitSecs (context ++ busyMessage) = none := by
  refine ⟨fun now last message h => ?_, ?_⟩
  · unfold cooldown at h
    dsimp only at h
    split at h
    · cases h
      have hwait : privilegedOpCooldownSecs - (now - last) = last + privilegedOpCooldownSecs - max now last := by omega
      rw [← hwait]
      exact parse_rateLimitMessage hctx (by unfold privilegedOpCooldownSecs; omega)
    · cases h
  · have hfirst : busyMessage.head? = some 'A' := by decide +kernel
    have hhead : ∀ c, busyMessage.head? = some c → c ∉ rateLimitPrefix := by
      intro c hc
      rw [hfirst] at hc
      cases hc
      decide +kernel
    have hbusy : ¬ rateLimitPrefix <:+: busyMessage := by
      rw [rateLimitPrefix_eq]
      exact not_infix_of_not_mem (by decide +kernel)
    rw [parseRateLimitWaitSecs, numberBetween, splitOnceAt_eq_none (not_infix_append hhead hctx hbusy)]
    rfl

theorem parse_refused_deepScan :
    (∀ now last message, cooldown now last = .error message →
        parseRateLimitWaitSecs ("Deep scan failed: ".toList ++ message) = some (last + privilegedOpCooldownSecs - max now last)) ∧
      parseRateLimitWaitSecs ("Deep scan failed: ".toList ++ busyMessage) = none :=
  parse_refused (by decide +kernel)

end LinuxHardener.Desktop.PrivilegedOps
