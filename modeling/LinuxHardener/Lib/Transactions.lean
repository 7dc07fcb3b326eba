import LinuxHardener.Lib.Dialogue
import Mathlib.Logic.Relation

/-
  Programs over a store that is written in transactions, one writer at a time.

  A program sends its calls over a connection, which holds at most one transaction: a
  copy of the store that the connection's statements work on and that a commit puts in
  the store's place. Any call may be refused, and a refusal may take the transaction
  with it. Several programs run side by side, each over a connection of its own.

  `Keeps R G post` says of a program: if the others change the store only as `R` allows,
  this one changes it only as `G` says, and `post` holds of what it returns.

  What is proved:
    1. `Keeps.exceptBind`, `keeps_begin`, `keeps_run_inside`, `keeps_run_outside`,
       `keeps_commit`, `keeps_rollback` — the rules, one for each call.
    2. `Reach.keeps` — programs that keep their word may be interleaved in any way:
       every store met is related to the first by the changes the programs own up to.
    3. `Solo.keeps` — and so for one program with the store to itself.
    4. `solo_runAlone` — a program that nothing refuses has the run `runAlone` computes.
-/
namespace LinuxHardener.Transactions

open Dialogue

/-- What is sent over a connection. -/
inductive Call (Stmt : Type) where
  | begin
  | run (q : Stmt)
  | commit
  | rollback
  /-- The connection is given back: what is open on it is rolled back. -/
  | release

/-- What comes back. -/
def Reply (ε : Type) {Stmt : Type} (Answer : Stmt → Type) : Call Stmt → Type
  | .begin | .commit | .rollback => Except ε Unit
  | .run q => Except ε (Answer q)
  | .release => Unit

def refusal {ε Stmt : Type} {Answer : Stmt → Type} (e : ε) : (c : Call Stmt) → Reply ε Answer c
  | .begin | .commit | .rollback | .run _ => .error e
  | .release => ()

section

variable {ε σ Stmt : Type} {Answer : Stmt → Type} (exec : (q : Stmt) → σ → Except ε (Answer q × σ))

/-- One call over a connection: the store and the transaction open on it (its copy of
the store), before and after. -/
inductive Serves : σ → Option σ → (c : Call Stmt) → Reply ε Answer c → σ → Option σ → Prop where
  | refused {s : σ} {m : Option σ} {c : Call Stmt} (e : ε) (h : c ≠ .release) : Serves s m c (refusal e c) s m
  | undone {s : σ} {m : Option σ} {c : Call Stmt} (e : ε) : Serves s m c (refusal e c) s none
  | began {s : σ} : Serves s none .begin (.ok ()) s (some s)
  | ran {s w w' : σ} {q : Stmt} {a : Answer q} (h : exec q w = .ok (a, w')) : Serves s (some w) (.run q) (.ok a) s (some w')
  | ranAlone {s s' : σ} {q : Stmt} {a : Answer q} (h : exec q s = .ok (a, s')) : Serves s none (.run q) (.ok a) s' none
  | committed {s w : σ} : Serves s (some w) .commit (.ok ()) w none
  | rolledBack {s w : σ} : Serves s (some w) .rollback (.ok ()) s none

/-- A connection nobody else writes beside and that refuses only what the store itself
refuses. -/
def serve (nothingOpen : ε) (alreadyOpen : ε) : σ → Option σ → (c : Call Stmt) → Reply ε Answer c × σ × Option σ
  | s, none, .begin => (.ok (), s, some s)
  | s, some w, .begin => (.error alreadyOpen, s, some w)
  | s, none, .run q =>
    match exec q s with
    | .ok (a, s') => (.ok a, s', none)
    | .error e => (.error e, s, none)
  | s, some w, .run q =>
    match exec q w with
    | .ok (a, w') => (.ok a, s, some w')
    | .error e => (.error e, s, some w)
  | _, some w, .commit => (.ok (), w, none)
  | s, none, .commit => (.error nothingOpen, s, none)
  | s, some _, .rollback => (.ok (), s, none)
  | s, none, .rollback => (.error nothingOpen, s, none)
  | s, _, .release => ((), s, none)

theorem serves_serve (nothingOpen alreadyOpen : ε) (s : σ) (m : Option σ) (c : Call Stmt) :
    Serves exec s m c (serve exec nothingOpen alreadyOpen s m c).1 (serve exec nothingOpen alreadyOpen s m c).2.1
      (serve exec nothingOpen alreadyOpen s m c).2.2 := by
  cases c with
  | begin =>
    cases m with
    | none => exact .began
    | some w => exact .refused (c := .begin) alreadyOpen (by simp)
  | run q =>
    cases m with
    | none =>
      cases h : exec q s with
      | ok p => simpa [serve, h] using Serves.ranAlone h
      | error e =>
        have hrefused : Serves exec s none (.run q) (refusal e (.run q)) s none := .refused e (by simp)
        simpa [serve, h, refusal] using hrefused
    | some w =>
      cases h : exec q w with
      | ok p => simpa [serve, h] using Serves.ran (s := s) h
      | error e =>
        have hrefused : Serves exec s (some w) (.run q) (refusal e (.run q)) s (some w) := .refused e (by simp)
        simpa [serve, h, refusal] using hrefused
  | commit =>
    cases m with
    | none => exact .refused (c := .commit) nothingOpen (by simp)
    | some w => exact .committed
  | rollback =>
    cases m with
    | none => exact .refused (c := .rollback) nothingOpen (by simp)
    | some w => exact .rolledBack
  | release =>
    cases m with
    | none => exact .undone (c := .release) nothingOpen
    | some w => exact .undone (c := .release) nothingOpen

/-! ## What a connection's program may do to the store -/

/-- A program that talks over a connection. -/
abbrev Prog (ε : Type) {Stmt : Type} (Answer : Stmt → Type) (α : Type) : Type := Program (Call Stmt) (Reply ε Answer) α

variable {α β : Type}

/-- The store a connection finds: where it holds a transaction, the one it last saw. -/
def Known (R : σ → σ → Prop) (m : Option σ) (s s' : σ) : Prop :=
  match m with
  | none => R s s'
  | some _ => s' = s

/-- While the others change the store only as `R` allows, the program changes it only
as `G` says, and `post` holds of what it returns, of the transaction it leaves open and
of the store. -/
def Keeps (R G : σ → σ → Prop) (post : α → Option σ → σ → Prop) : Prog ε Answer α → Option σ → σ → Prop
  | .done a, m, s => ∀ s', Known R m s s' → post a m s'
  | .ask c next, m, s => ∀ s', Known R m s s' → ∀ r s'' m'', Serves exec s' m c r s'' m'' →
      G s' s'' ∧ Keeps R G post (next r) m'' s''

/-- Doing nothing is allowed to all, and the others may do one thing after another. -/
structure Regular (R G : σ → σ → Prop) : Prop where
  refl : ∀ s, R s s
  trans : ∀ {s s' s''}, R s s' → R s' s'' → R s s''
  idle : ∀ s, G s s

theorem Regular.known_refl {R G : σ → σ → Prop} (h : Regular R G) (m : Option σ) (s : σ) : Known R m s s := by
  cases m with
  | none => exact h.refl s
  | some w => rfl

theorem Regular.known_trans {R G : σ → σ → Prop} (h : Regular R G) {m : Option σ} {s s' s'' : σ} (h₁ : Known R m s s')
    (h₂ : Known R m s' s'') : Known R m s s'' := by
  cases m with
  | none => exact h.trans h₁ h₂
  | some w => exact Eq.trans (show s'' = s' from h₂) h₁

/-- One change after another is what the others may do. -/
theorem Regular.changes {R G : σ → σ → Prop} (h : Regular R G) (hshared : ∀ s s', G s s' → R s s') {s s' : σ}
    (hs : Relation.ReflTransGen G s s') : R s s' := by
  induction hs with
  | refl => exact h.refl s
  | tail _ hone ih => exact h.trans ih (hshared _ _ hone)

variable {exec} {R G : σ → σ → Prop} {post mid : α → Option σ → σ → Prop}

/-- What the others may do does not break it. -/
theorem Keeps.stable (hreg : Regular R G) {p : Prog ε Answer α} {m : Option σ} {s s' : σ} (h : Keeps exec R G post p m s)
    (hs : Known R m s s') : Keeps exec R G post p m s' := by
  cases p with
  | done a => exact fun s'' h' => h s'' (hreg.known_trans hs h')
  | ask c next => exact fun s'' h' => h s'' (hreg.known_trans hs h')

theorem Keeps.mono {p : Prog ε Answer α} {m : Option σ} {s : σ} (h : Keeps exec R G mid p m s)
    (hpost : ∀ a m s, mid a m s → post a m s) : Keeps exec R G post p m s := by
  induction p generalizing m s with
  | done a => exact fun s' hs => hpost a m s' (h s' hs)
  | ask c next ih =>
    intro s' hs r s'' m'' hserve
    exact ⟨(h s' hs r s'' m'' hserve).1, ih r (h s' hs r s'' m'' hserve).2⟩

/-- Two programs in a row. -/
theorem Keeps.bind (hreg : Regular R G) {p : Prog ε Answer α} {f : α → Prog ε Answer β} {post : β → Option σ → σ → Prop}
    {m : Option σ} {s : σ} (h : Keeps exec R G mid p m s) (hf : ∀ a m s, mid a m s → Keeps exec R G post (f a) m s) :
    Keeps exec R G post (p >>= f) m s := by
  induction p generalizing m s with
  | done a => exact hf a m s (h s (hreg.known_refl m s))
  | ask c next ih =>
    intro s' hs r s'' m'' hserve
    exact ⟨(h s' hs r s'' m'' hserve).1, ih r (h s' hs r s'' m'' hserve).2⟩

/-- What holds when a program returns still holds when the next call is made. -/
theorem Keeps.settled (hreg : Regular R G) {p : Prog ε Answer α} {m : Option σ} {s : σ} (h : Keeps exec R G mid p m s) :
    Keeps exec R G (fun a m s => ∀ s', Known R m s s' → mid a m s') p m s := by
  induction p generalizing m s with
  | done a => exact fun s' hs s'' hs' => h s'' (hreg.known_trans hs hs')
  | ask c next ih =>
    intro s' hs r s'' m'' hserve
    exact ⟨(h s' hs r s'' m'' hserve).1, ih r (h s' hs r s'' m'' hserve).2⟩

/-- Two programs in a row, where the second is for the first one's success. -/
theorem Keeps.exceptBind (hreg : Regular R G) {E : Type} {x : ExceptT E (Prog ε Answer) α} {f : α → ExceptT E (Prog ε Answer) β}
    (mid : Except E α → Option σ → σ → Prop) {post : Except E β → Option σ → σ → Prop} {m : Option σ} {s : σ}
    (h : Keeps exec R G mid x.run m s) (hok : ∀ a m s, mid (.ok a) m s → Keeps exec R G post (f a).run m s)
    (herr : ∀ e m s, mid (.error e) m s → post (.error e) m s) : Keeps exec R G post (x >>= f).run m s := by
  rw [ExceptT.run_bind]
  refine (h.settled hreg).bind hreg fun r m s hr => ?_
  cases r with
  | ok a => exact hok a m s (hr s (hreg.known_refl m s))
  | error e => exact fun s' hs => herr e m s' (hr s' hs)

/-- A program whose failure the next one is told of. -/
theorem Keeps.lift (hreg : Regular R G) {E : Type} {p : Prog ε Answer α} {mid : Except E α → Option σ → σ → Prop} {m : Option σ}
    {s : σ} (h : Keeps exec R G (fun a => mid (.ok a)) p m s) :
    Keeps exec R G mid (ExceptT.lift p : ExceptT E (Prog ε Answer) α).run m s := by
  rw [ExceptT.run_lift, map_eq_pure_bind]
  exact (h.settled hreg).bind hreg fun a m s ha => ha

/-! ## One rule for each call -/

section

variable {E : Type} (err : ε → E)

/-- Send a call whose refusal ends the program. -/
def sent {τ : Type} (c : Call Stmt) (h : Reply ε Answer c = Except ε τ) : ExceptT E (Prog ε Answer) τ :=
  ExceptT.mk (Program.query c >>= fun r => pure (Except.mapError err (cast h r)))

def beginTransaction : ExceptT E (Prog ε Answer) Unit := sent err .begin rfl

def statement (q : Stmt) : ExceptT E (Prog ε Answer) (Answer q) := sent err (.run q) rfl

def commitTransaction : ExceptT E (Prog ε Answer) Unit := sent err .commit rfl

def rollbackTransaction : ExceptT E (Prog ε Answer) Unit := sent err .rollback rfl

variable {err}

theorem keeps_begin {post : Except E Unit → Option σ → σ → Prop} (hreg : Regular R G) {s : σ}
    (hok : ∀ s', R s s' → post (.ok ()) (some s') s') (herr : ∀ e s', R s s' → post (.error e) none s') :
    Keeps exec R G post (beginTransaction err).run none s := by
  intro s' hs r s'' m'' hserve
  cases hserve with
  | refused e _ => exact ⟨hreg.idle s', fun t ht => herr (err e) t (hreg.trans hs ht)⟩
  | undone e => exact ⟨hreg.idle s', fun t ht => herr (err e) t (hreg.trans hs ht)⟩
  | began =>
    refine ⟨hreg.idle s', ?_⟩
    rintro t rfl
    exact hok t hs

/-- A statement in a transaction works on the copy. -/
theorem keeps_run_inside {q : Stmt} {post : Except E (Answer q) → Option σ → σ → Prop} (hreg : Regular R G) {s w : σ}
    (hok : ∀ a w', exec q w = .ok (a, w') → post (.ok a) (some w') s) (hkept : ∀ e, post (.error e) (some w) s)
    (hlost : ∀ e s', R s s' → post (.error e) none s') : Keeps exec R G post (statement err q).run (some w) s := by
  rintro s' rfl r s'' m'' hserve
  cases hserve with
  | refused e _ =>
    refine ⟨hreg.idle s', ?_⟩
    rintro t rfl
    exact hkept (err e)
  | undone e => exact ⟨hreg.idle s', fun t ht => hlost (err e) t ht⟩
  | ran h =>
    refine ⟨hreg.idle s', ?_⟩
    rintro t rfl
    exact hok _ _ h

/-- A statement of its own is a transaction of its own. -/
theorem keeps_run_outside {q : Stmt} {post : Except E (Answer q) → Option σ → σ → Prop} (hreg : Regular R G) {s : σ}
    (hok : ∀ a s' s'', R s s' → exec q s' = .ok (a, s'') → G s' s'' ∧ ∀ t, R s'' t → post (.ok a) none t)
    (herr : ∀ e s', R s s' → post (.error e) none s') : Keeps exec R G post (statement err q).run none s := by
  intro s' hs r s'' m'' hserve
  cases hserve with
  | refused e _ => exact ⟨hreg.idle s', fun t ht => herr (err e) t (hreg.trans hs ht)⟩
  | undone e => exact ⟨hreg.idle s', fun t ht => herr (err e) t (hreg.trans hs ht)⟩
  | ranAlone h => exact hok _ _ _ hs h

theorem keeps_commit {post : Except E Unit → Option σ → σ → Prop} (hreg : Regular R G) {s w : σ} (hG : G s w)
    (hok : ∀ t, R w t → post (.ok ()) none t) (hkept : ∀ e, post (.error e) (some w) s)
    (hlost : ∀ e s', R s s' → post (.error e) none s') : Keeps exec R G post (commitTransaction err).run (some w) s := by
  rintro s' rfl r s'' m'' hserve
  cases hserve with
  | refused e _ =>
    refine ⟨hreg.idle s', ?_⟩
    rintro t rfl
    exact hkept (err e)
  | undone e => exact ⟨hreg.idle s', fun t ht => hlost (err e) t ht⟩
  | committed => exact ⟨hG, fun t ht => hok t ht⟩

/-- A rollback, also where nothing is open any more. -/
theorem keeps_rollback {post : Except E Unit → Option σ → σ → Prop} (hreg : Regular R G) {m : Option σ} {s : σ}
    (h : ∀ r m' t, m' = m ∨ m' = none → Known R m' s t → post r m' t) :
    Keeps exec R G post (rollbackTransaction err).run m s := by
  intro s' hs r s'' m'' hserve
  have hlost : ∀ r t, R s' t → post r none t := by
    intro r t ht
    refine h r none t (.inr rfl) ?_
    cases m with
    | none => exact hreg.trans hs ht
    | some w =>
      obtain rfl : s' = s := hs
      exact ht
  cases hserve with
  | refused e _ => exact ⟨hreg.idle s', fun t ht => h _ m t (.inl rfl) (hreg.known_trans hs ht)⟩
  | undone e => exact ⟨hreg.idle s', fun t ht => hlost _ t ht⟩
  | rolledBack => exact ⟨hreg.idle s', fun t ht => hlost _ t ht⟩

end

/-- Run a program and give the connection back. -/
def released (p : Prog ε Answer α) : Prog ε Answer α := p >>= fun a => .ask .release fun _ => .done a

/-- What is open on a connection given back has changed nothing. -/
theorem Keeps.released (hreg : Regular R G) (mid : α → Option σ → σ → Prop) {p : Prog ε Answer α} {m : Option σ} {s : σ}
    (h : Keeps exec R G mid p m s)
    (hpost : ∀ a m s s', mid a m s → Known R m s s' → ∀ t, R s' t → post a none t) :
    Keeps exec R G post (released p) m s := by
  refine h.bind hreg fun a m s ha => ?_
  intro s' hs r s'' m'' hserve
  cases hserve with
  | undone e => exact ⟨hreg.idle s', fun t ht => hpost a m s s' ha hs t ht⟩
  | refused e hne => exact absurd rfl hne

/-! ## Inside a transaction and outside -/

section

variable {E : Type} {err : ε → E}

/-- A transaction begun at `t` is still open, with a copy of which `P` holds, or the
program has failed. -/
def Inside (R : σ → σ → Prop) (t : σ) (P : α → σ → Prop) : Except E α → Option σ → σ → Prop
  | .ok a, m, u => ∃ w, m = some w ∧ P a w ∧ u = t
  | .error _, m, u => Known R m t u

theorem keeps_pure_inside {t w : σ} {P : α → σ → Prop} {a : α} (h : P a w) :
    Keeps exec R G (Inside R t P) (pure a : ExceptT E (Prog ε Answer) α).run (some w) t := fun _ hu => ⟨w, rfl, h, hu⟩

theorem keeps_throw_inside {t w : σ} {P : α → σ → Prop} (e : E) :
    Keeps exec R G (Inside R t P) (throw e : ExceptT E (Prog ε Answer) α).run (some w) t := fun _ hu => hu

theorem keeps_statement_inside (hreg : Regular R G) {q : Stmt} {t w : σ} {P : Answer q → σ → Prop}
    (h : ∀ a w', exec q w = .ok (a, w') → P a w') : Keeps exec R G (Inside R t P) (statement err q).run (some w) t :=
  keeps_run_inside hreg (fun a w' hexec => ⟨w', rfl, h a w' hexec, rfl⟩) (fun _ => rfl) fun _ _ hu => hu

theorem Keeps.insideMono {t : σ} {P Q : α → σ → Prop} {x : ExceptT E (Prog ε Answer) α} {m : Option σ} {s : σ}
    (h : Keeps exec R G (Inside R t P) x.run m s) (hPQ : ∀ a w, P a w → Q a w) :
    Keeps exec R G (Inside R t Q) x.run m s := by
  refine h.mono fun r m u hr => ?_
  cases r with
  | ok a =>
    obtain ⟨w, hm, hw, hu⟩ := hr
    exact ⟨w, hm, hPQ a w hw, hu⟩
  | error e => exact hr

theorem Keeps.insideBind (hreg : Regular R G) {x : ExceptT E (Prog ε Answer) α} {f : α → ExceptT E (Prog ε Answer) β}
    {P : α → σ → Prop} {Q : β → σ → Prop} {m : Option σ} {s t : σ} (h : Keeps exec R G (Inside R t P) x.run m s)
    (hf : ∀ a w, P a w → Keeps exec R G (Inside R t Q) (f a).run (some w) t) :
    Keeps exec R G (Inside R t Q) (x >>= f).run m s := by
  refine h.exceptBind hreg _ ?_ fun _ _ _ he => he
  rintro a _ _ ⟨w, rfl, hw, rfl⟩
  exact hf a w hw

/-- A transaction in a scope: left before its commit, it is rolled back. -/
def transaction (err : ε → E) (body : ExceptT E (Prog ε Answer) Unit) : ExceptT E (Prog ε Answer) Unit :=
  ExceptT.mk (released (do
    beginTransaction err
    body
    commitTransaction err : ExceptT E (Prog ε Answer) Unit).run)

/-- All of a transaction happens, or nothing. -/
theorem keeps_transaction (hreg : Regular R G) (post : Except E Unit → σ → Prop) {body : ExceptT E (Prog ε Answer) Unit} {s : σ}
    (hbody : ∀ t, R s t → Keeps exec R G (Inside R t fun _ w => G t w ∧ ∀ v, R w v → post (.ok ()) v) body.run (some t) t)
    (herr : ∀ e t, R s t → post (.error e) t) :
    Keeps exec R G (fun r m t => m = none ∧ post r t) (transaction err body).run none s := by
  have hknown : ∀ {m : Option σ} {t u : σ}, R s t → Known R m t u → R s u := by
    intro m t u ht hu
    cases m with
    | none => exact hreg.trans ht hu
    | some w =>
      obtain rfl : u = t := hu
      exact ht
  refine Keeps.released hreg (fun r m u =>
    match r with
    | .ok _ => m = none ∧ ∀ v, R u v → post (.ok ()) v
    | .error _ => R s u) ?_ ?_
  · refine Keeps.exceptBind hreg (fun r m t =>
      match r with
      | .ok _ => m = some t ∧ R s t
      | .error _ => R s t) ?_ ?_ fun _ _ _ h => h
    · exact keeps_begin hreg (fun t ht => ⟨rfl, ht⟩) fun _ t ht => ht
    rintro _ _ t ⟨rfl, ht⟩
    refine (hbody t ht).exceptBind hreg _ ?_ fun _ m u hu => hknown ht hu
    rintro _ _ _ ⟨w, rfl, ⟨hG, hw⟩, rfl⟩
    refine keeps_commit hreg hG (fun v hv => ⟨rfl, fun v' hv' => hw v' (hreg.trans hv hv')⟩) (fun _ => ht) fun _ v hv => ?_
    exact hreg.trans ht hv
  · intro r m u u' hmid hu v hv
    refine ⟨rfl, ?_⟩
    cases r with
    | ok _ =>
      obtain ⟨rfl, hall⟩ := hmid
      exact hall v (hreg.trans hu hv)
    | error e => exact herr e v (hreg.trans (hknown hmid hu) hv)

/-- No transaction is open. -/
def Closed : α → Option σ → σ → Prop := fun _ m _ => m = none

theorem keeps_pure_closed {s : σ} (a : α) : Keeps exec R G Closed (.done a : Prog ε Answer α) none s := fun _ _ => rfl

theorem keeps_statement_closed (hreg : Regular R G) {q : Stmt} {s : σ}
    (h : ∀ a t t', exec q t = .ok (a, t') → G t t') : Keeps exec R G Closed (statement err q).run none s :=
  keeps_run_outside hreg (fun a t t' _ hexec => ⟨h a t t' hexec, fun _ _ => rfl⟩) fun _ _ _ => rfl

theorem Keeps.closedBind (hreg : Regular R G) {p : Prog ε Answer α} {f : α → Prog ε Answer β} {s : σ}
    (h : Keeps exec R G Closed p none s) (hf : ∀ a s, Keeps exec R G Closed (f a) none s) :
    Keeps exec R G Closed (p >>= f) none s := by
  refine h.bind hreg fun a m s hm => ?_
  obtain rfl : m = none := hm
  exact hf a s

theorem Keeps.closedExceptBind (hreg : Regular R G) {x : ExceptT E (Prog ε Answer) α} {f : α → ExceptT E (Prog ε Answer) β} {s : σ}
    (h : Keeps exec R G Closed x.run none s) (hf : ∀ a s, Keeps exec R G Closed (f a).run none s) :
    Keeps exec R G Closed (x >>= f).run none s := by
  refine h.exceptBind hreg _ (fun a m s hm => ?_) fun _ _ _ hm => hm
  obtain rfl : m = none := hm
  exact hf a s

end

/-! ## Programs side by side -/

variable {ι : Type}

/-- The store, and for each connection the transaction open on it and what its program
has still to do; a program that ended or died is gone. -/
structure System (ε σ : Type) {Stmt : Type} (Answer : Stmt → Type) (ι α : Type) where
  store : σ
  held : ι → Option σ
  program : ι → Option (Prog ε Answer α)

/-- Every program before its first call. -/
def opening (s : σ) (programs : ι → Prog ε Answer α) : System ε σ Answer ι α := ⟨s, fun _ => none, fun i => some (programs i)⟩

variable (exec) in
/-- One program makes a call, or ends with what is open on its connection lost. A call
that writes or opens a transaction is served while no other connection holds one. -/
inductive Step [DecidableEq ι] : System ε σ Answer ι α → System ε σ Answer ι α → Prop where
  | call {S : System ε σ Answer ι α} {i : ι} {c : Call Stmt} {next : Reply ε Answer c → Prog ε Answer α} {r : Reply ε Answer c}
      {s' : σ} {m' : Option σ} (hi : S.program i = some (.ask c next)) (hs : Serves exec S.store (S.held i) c r s' m')
      (hlock : (m' = none ∧ s' = S.store) ∨ ∀ j ≠ i, S.held j = none) :
      Step S ⟨s', Function.update S.held i m', Function.update S.program i (some (next r))⟩
  | close {S : System ε σ Answer ι α} (i : ι) :
      Step S ⟨S.store, Function.update S.held i none, Function.update S.program i none⟩

variable (exec) in
/-- What some interleaving leads to. -/
def Reach [DecidableEq ι] : System ε σ Answer ι α → System ε σ Answer ι α → Prop := Relation.ReflTransGen (Step exec)

/-- At most one connection holds a transaction. -/
def Alone (held : ι → Option σ) : Prop := ∀ i j, i ≠ j → held i ≠ none → held j = none

theorem Alone.update [DecidableEq ι] {held : ι → Option σ} (h : Alone held) {i : ι} {m' : Option σ}
    (hm : m' = none ∨ ∀ j ≠ i, held j = none) : Alone (Function.update held i m') := by
  intro j k hne hheld
  by_cases hj : j = i
  · subst hj
    rw [Function.update_self] at hheld
    rw [Function.update_of_ne (Ne.symm hne)]
    exact hm.resolve_left hheld k (Ne.symm hne)
  · rw [Function.update_of_ne hj] at hheld
    by_cases hk : k = i
    · subst hk
      rw [Function.update_self]
      exact hm.resolve_right fun hr => hheld (hr j hj)
    · rw [Function.update_of_ne hk]
      exact h j k hne hheld

variable (exec R G) in
/-- At most one transaction is open, and each program keeps its word from here on. -/
structure Sound (post : ι → α → Option σ → σ → Prop) (S : System ε σ Answer ι α) : Prop where
  alone : Alone S.held
  keeps : ∀ i p, S.program i = some p → Keeps exec R G (post i) p (S.held i) S.store

theorem sound_opening {post : ι → α → Option σ → σ → Prop} {s : σ} {programs : ι → Prog ε Answer α}
    (h : ∀ i, Keeps exec R G (post i) (programs i) none s) : Sound exec R G post (opening s programs) where
  alone _ _ _ hne := absurd rfl hne
  keeps i p hp := by
    obtain rfl : programs i = p := by simpa [opening] using hp
    exact h i

theorem Step.sound [DecidableEq ι] {post : ι → α → Option σ → σ → Prop} (hreg : Regular R G) (hshared : ∀ s s', G s s' → R s s')
    {S S' : System ε σ Answer ι α} (hsound : Sound exec R G post S) (h : Step exec S S') :
    Sound exec R G post S' ∧ G S.store S'.store := by
  cases h with
  | @call i c next r s' m' hi hs hlock =>
    obtain ⟨hG, hnext⟩ := hsound.keeps i _ hi S.store (hreg.known_refl _ _) r s' m' hs
    refine ⟨⟨hsound.alone.update (hlock.imp_left And.left), fun j p hp => ?_⟩, hG⟩
    dsimp only at hp ⊢
    by_cases hj : j = i
    · subst hj
      rw [Function.update_self] at hp ⊢
      obtain rfl := Option.some.inj hp
      exact hnext
    · rw [Function.update_of_ne hj] at hp ⊢
      refine (hsound.keeps j p hp).stable hreg ?_
      -- A connection that holds a transaction sees no other write.
      cases hheld : S.held j with
      | none => exact hshared _ _ hG
      | some w => exact (hlock.resolve_right fun hr => by simp [hr j hj] at hheld).2
  | close i =>
    refine ⟨⟨hsound.alone.update (.inl rfl), fun j p hp => ?_⟩, hreg.idle _⟩
    dsimp only at hp ⊢
    by_cases hj : j = i
    · simp [hj] at hp
    · rw [Function.update_of_ne hj] at hp ⊢
      exact hsound.keeps j p hp

/-- Programs that keep their word do so in every interleaving. -/
theorem Reach.keeps [DecidableEq ι] {post : ι → α → Option σ → σ → Prop} (hreg : Regular R G) (hshared : ∀ s s', G s s' → R s s')
    {S S' : System ε σ Answer ι α} (hsound : Sound exec R G post S) (h : Reach exec S S') :
    Sound exec R G post S' ∧ Relation.ReflTransGen G S.store S'.store := by
  induction h with
  | refl => exact ⟨hsound, .refl⟩
  | tail _ hstep ih =>
    obtain ⟨hsound', hG⟩ := hstep.sound hreg hshared ih.1
    exact ⟨hsound', ih.2.tail hG⟩

/-- Where a program returned, what it promised holds. -/
theorem Sound.returned {post : ι → α → Option σ → σ → Prop} (hreg : Regular R G) {S : System ε σ Answer ι α}
    (hsound : Sound exec R G post S) {i : ι} {a : α} (hi : S.program i = some (.done a)) : post i a (S.held i) S.store :=
  hsound.keeps i _ hi S.store (hreg.known_refl _ _)

/-! ## A program with the store to itself -/

variable (exec) in
/-- What a program returns, with the transaction it leaves open and the store. -/
inductive Solo : Prog ε Answer α → Option σ → σ → α → Option σ → σ → Prop where
  | done {a : α} {m : Option σ} {s : σ} : Solo (.done a) m s a m s
  | ask {c : Call Stmt} {next : Reply ε Answer c → Prog ε Answer α} {r : Reply ε Answer c} {m m' m'' : Option σ} {s s' s'' : σ}
      {a : α} (hs : Serves exec s m c r s' m') (h : Solo (next r) m' s' a m'' s'') : Solo (.ask c next) m s a m'' s''

theorem regular_eq {G : σ → σ → Prop} (h : ∀ s, G s s) : Regular (fun s s' => s' = s) G where
  refl _ := rfl
  trans h₁ h₂ := h₂.trans h₁
  idle := h

/-- Alone, a program that keeps its word where nobody else writes keeps it. -/
theorem Solo.keeps {p : Prog ε Answer α} {m m' : Option σ} {s s' : σ} {a : α} (h : Solo exec p m s a m' s')
    (hp : Keeps exec (fun s s' => s' = s) G post p m s) (hidle : ∀ s, G s s) :
    post a m' s' ∧ Relation.ReflTransGen G s s' := by
  induction h with
  | @done a m s => exact ⟨hp s ((regular_eq hidle).known_refl m s), .refl⟩
  | @ask c next r m m' m'' s s' s'' a hserve _ ih =>
    obtain ⟨hG, hnext⟩ := hp s ((regular_eq hidle).known_refl m s) r s' m' hserve
    exact ⟨(ih hnext).1, .head hG (ih hnext).2⟩

variable (exec) in
/-- The run of a program that only the store itself refuses anything. -/
def runAlone (nothingOpen alreadyOpen : ε) : Prog ε Answer α → Option σ → σ → α × Option σ × σ
  | .done a, m, s => (a, m, s)
  | .ask c next, m, s =>
    let served := serve exec nothingOpen alreadyOpen s m c
    runAlone nothingOpen alreadyOpen (next served.1) served.2.2 served.2.1

theorem solo_runAlone (nothingOpen alreadyOpen : ε) (p : Prog ε Answer α) (m : Option σ) (s : σ) :
    Solo exec p m s (runAlone exec nothingOpen alreadyOpen p m s).1 (runAlone exec nothingOpen alreadyOpen p m s).2.1
      (runAlone exec nothingOpen alreadyOpen p m s).2.2 := by
  induction p generalizing m s with
  | done a => exact .done
  | ask c next ih => exact .ask (serves_serve exec nothingOpen alreadyOpen s m c) (ih _ _ _)

/-- Two programs in a row are run one after the other. -/
theorem runAlone_bind (nothingOpen alreadyOpen : ε) (p : Prog ε Answer α) (f : α → Prog ε Answer β) (m : Option σ) (s : σ) :
    runAlone exec nothingOpen alreadyOpen (p >>= f) m s =
      runAlone exec nothingOpen alreadyOpen (f (runAlone exec nothingOpen alreadyOpen p m s).1)
        (runAlone exec nothingOpen alreadyOpen p m s).2.1 (runAlone exec nothingOpen alreadyOpen p m s).2.2 := by
  induction p generalizing m s with
  | done a => rfl
  | ask c next ih => exact ih _ _ _

theorem runAlone_bind_ok {E : Type} {nothingOpen alreadyOpen : ε} {x : ExceptT E (Prog ε Answer) α}
    {f : α → ExceptT E (Prog ε Answer) β} {a : α} {m m' : Option σ} {s s' : σ}
    (h : runAlone exec nothingOpen alreadyOpen x.run m s = (.ok a, m', s')) :
    runAlone exec nothingOpen alreadyOpen (x >>= f).run m s = runAlone exec nothingOpen alreadyOpen (f a).run m' s' := by
  rw [ExceptT.run_bind, runAlone_bind, h]

theorem runAlone_bind_error {E : Type} {nothingOpen alreadyOpen : ε} {x : ExceptT E (Prog ε Answer) α}
    {f : α → ExceptT E (Prog ε Answer) β} {e : E} {m m' : Option σ} {s s' : σ}
    (h : runAlone exec nothingOpen alreadyOpen x.run m s = (.error e, m', s')) :
    runAlone exec nothingOpen alreadyOpen (x >>= f).run m s = (.error e, m', s') := by
  rw [ExceptT.run_bind, runAlone_bind, h]
  rfl

theorem runAlone_lift {E : Type} {nothingOpen alreadyOpen : ε} {p : Prog ε Answer α} {a : α} {m m' : Option σ} {s s' : σ}
    (h : runAlone exec nothingOpen alreadyOpen p m s = (a, m', s')) :
    runAlone exec nothingOpen alreadyOpen (ExceptT.lift p : ExceptT E (Prog ε Answer) α).run m s = (.ok a, m', s') := by
  rw [ExceptT.run_lift, map_eq_pure_bind, runAlone_bind, h]
  rfl

section

variable {E : Type} {err : ε → E} {nothingOpen alreadyOpen : ε}

@[simp] theorem runAlone_begin (s : σ) :
    runAlone exec nothingOpen alreadyOpen (beginTransaction err).run none s = (.ok (), some s, s) := rfl

@[simp] theorem runAlone_commit (s w : σ) :
    runAlone exec nothingOpen alreadyOpen (commitTransaction err).run (some w) s = (.ok (), none, w) := rfl

theorem runAlone_outside {q : Stmt} {a : Answer q} {s s' : σ} (h : exec q s = .ok (a, s')) :
    runAlone exec nothingOpen alreadyOpen (statement err q).run none s = (.ok a, none, s') := by
  change (let served := serve exec nothingOpen alreadyOpen s none (.run q)
    (Except.mapError err served.1, served.2.2, served.2.1)) = _
  simp [serve, h, Except.mapError]

theorem runAlone_inside {q : Stmt} {a : Answer q} {s w w' : σ} (h : exec q w = .ok (a, w')) :
    runAlone exec nothingOpen alreadyOpen (statement err q).run (some w) s = (.ok a, some w', s) := by
  change (let served := serve exec nothingOpen alreadyOpen s (some w) (.run q)
    (Except.mapError err served.1, served.2.2, served.2.1)) = _
  simp [serve, h, Except.mapError]

theorem runAlone_transaction {body : ExceptT E (Prog ε Answer) Unit} {s w : σ}
    (h : runAlone exec nothingOpen alreadyOpen body.run (some s) s = (.ok (), some w, s)) :
    runAlone exec nothingOpen alreadyOpen (transaction err body).run none s = (.ok (), none, w) := by
  have hcommitted : runAlone exec nothingOpen alreadyOpen
      (beginTransaction err >>= fun _ => body >>= fun _ => commitTransaction err).run none s = (.ok (), none, w) := by
    rw [runAlone_bind_ok (runAlone_begin s), runAlone_bind_ok h]
    exact runAlone_commit s w
  change runAlone exec nothingOpen alreadyOpen (released
    (beginTransaction err >>= fun _ => body >>= fun _ => commitTransaction err).run) none s = _
  rw [released, runAlone_bind, hcommitted]
  rfl

end

end

end LinuxHardener.Transactions
