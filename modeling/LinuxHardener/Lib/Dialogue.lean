import Mathlib.Logic.Function.Basic
import Mathlib.Data.List.Basic

/-
  Programs that ask their surroundings and go on with the answer.

  A program is the tree of its questions; a run is one path through it, with the
  questions and the answers met on the way. What is proved:
    1. `run_bind` — a run of two programs in a row is a run of each.
    2. `run_play` — against surroundings that answer by a rule, a program has the run
       that `play` computes.
    3. `after_append` — what a run does to the surroundings, it does piece by piece.
    4. `Asks.of_run`, `Returns.of_run` — what holds of every question a program may ask,
       and of all it may return, holds in its runs; `Asks.bind` and `Returns.bind` put
       programs together.
    5. `answered_bind`, `play_still` — a program whose questions leave the surroundings as
       they are returns what their answers make of it.
  What runs item by item over a list falls apart into a run for each (`run_mapM`), and a
  program told the same twice does the same twice (`run_agree`).
-/
namespace LinuxHardener.Dialogue

/-- A program has returned, or it asks and goes on with the answer. -/
inductive Program (Query : Type) (Answer : Query → Type) (α : Type) where
  | done (a : α)
  | ask (q : Query) (next : Answer q → Program Query Answer α)

/-- A question with the answer it got. -/
structure Event {Query : Type} (Answer : Query → Type) where
  query : Query
  answer : Answer query

namespace Program

variable {Query : Type} {Answer : Query → Type} {α β : Type}

def bind : Program Query Answer α → (α → Program Query Answer β) → Program Query Answer β
  | done a, f => f a
  | ask q next, f => ask q fun r => (next r).bind f

instance : Monad (Program Query Answer) where
  pure := done
  bind := bind

/-- One question. -/
def query (q : Query) : Program Query Answer (Answer q) := ask q done

@[simp] theorem pure_eq (a : α) : (pure a : Program Query Answer α) = done a := rfl

@[simp] theorem bind_done (a : α) (f : α → Program Query Answer β) : (done a : Program Query Answer α) >>= f = f a := rfl

@[simp] theorem bind_ask (q : Query) (next : Answer q → Program Query Answer α) (f : α → Program Query Answer β) :
    ask q next >>= f = ask q fun r => next r >>= f := rfl

@[simp] theorem query_bind (q : Query) (f : Answer q → Program Query Answer β) : query q >>= f = ask q f := rfl

theorem id_map (p : Program Query Answer α) : id <$> p = p := by
  induction p with
  | done a => rfl
  | ask q next ih => exact congrArg (ask q) (funext ih)

theorem bind_assoc {γ : Type} (p : Program Query Answer α) (f : α → Program Query Answer β)
    (g : β → Program Query Answer γ) : p >>= f >>= g = p >>= fun a => f a >>= g := by
  induction p with
  | done a => rfl
  | ask q next ih => exact congrArg (ask q) (funext ih)

instance : LawfulMonad (Program Query Answer) := LawfulMonad.mk' _ id_map (fun _ _ => rfl) bind_assoc

end Program

section

variable {Query : Type} {Answer : Query → Type} {α β : Type}

/-- The questions a program asks and the answers it gets, up to what it returns. -/
inductive Run : Program Query Answer α → List (Event Answer) → α → Prop where
  | done {a : α} : Run (.done a) [] a
  | ask {q : Query} {next : Answer q → Program Query Answer α} {r : Answer q} {es : List (Event Answer)} {a : α}
      (h : Run (next r) es a) : Run (.ask q next) (⟨q, r⟩ :: es) a

@[simp] theorem run_done {a b : α} {es : List (Event Answer)} :
    Run (.done a : Program Query Answer α) es b ↔ es = [] ∧ a = b := by
  constructor
  · rintro ⟨⟩
    exact ⟨rfl, rfl⟩
  · rintro ⟨rfl, rfl⟩
    exact .done

@[simp] theorem run_pure {a b : α} {es : List (Event Answer)} :
    Run (pure a : Program Query Answer α) es b ↔ es = [] ∧ a = b := run_done

theorem run_ask {q : Query} {next : Answer q → Program Query Answer α} {es : List (Event Answer)} {a : α} :
    Run (.ask q next) es a ↔ ∃ r es', es = ⟨q, r⟩ :: es' ∧ Run (next r) es' a := by
  constructor
  · rintro ⟨⟩
    exact ⟨_, _, rfl, by assumption⟩
  · rintro ⟨r, es', rfl, h⟩
    exact .ask h

/-- A run of two programs in a row is a run of each. -/
theorem run_bind {p : Program Query Answer α} {f : α → Program Query Answer β} {es : List (Event Answer)} {b : β} :
    Run (p >>= f) es b ↔ ∃ es₁ a es₂, es = es₁ ++ es₂ ∧ Run p es₁ a ∧ Run (f a) es₂ b := by
  induction p generalizing es with
  | done a =>
    rw [Program.bind_done]
    constructor
    · intro h
      exact ⟨[], a, es, rfl, .done, h⟩
    · rintro ⟨es₁, c, es₂, rfl, hp, hf⟩
      obtain ⟨rfl, rfl⟩ := run_done.mp hp
      exact hf
  | ask q next ih =>
    rw [Program.bind_ask, run_ask]
    constructor
    · rintro ⟨r, es', rfl, h⟩
      obtain ⟨es₁, a, es₂, rfl, hp, hf⟩ := (ih r).mp h
      exact ⟨⟨q, r⟩ :: es₁, a, es₂, rfl, .ask hp, hf⟩
    · rintro ⟨es₁, a, es₂, rfl, hp, hf⟩
      obtain ⟨r, es', rfl, hr⟩ := run_ask.mp hp
      exact ⟨r, es' ++ es₂, rfl, (ih r).mpr ⟨es', a, es₂, rfl, hr, hf⟩⟩

/-- Where two parties are told the same, they are: no question both ask gets two answers. -/
def Agree (es es' : List (Event Answer)) : Prop := ∀ q r r', ⟨q, r⟩ ∈ es → ⟨q, r'⟩ ∈ es' → r = r'

theorem Agree.mono {es es' fs fs' : List (Event Answer)} (h : Agree es es') (hes : ∀ e ∈ fs, e ∈ es)
    (hes' : ∀ e ∈ fs', e ∈ es') : Agree fs fs' := fun q r r' hr hr' => h q r r' (hes _ hr) (hes' _ hr')

/-- A run for each item is a run over the list. -/
theorem run_mapM_of {ι : Type} {f : ι → Program Query Answer α} {l : List ι} {events : ι → List (Event Answer)}
    {result : ι → α} (h : ∀ i ∈ l, Run (f i) (events i) (result i)) :
    Run (l.mapM f) (l.flatMap events) (l.map result) := by
  induction l with
  | nil =>
    rw [List.mapM_nil]
    exact .done
  | cons i l ih =>
    rw [List.mapM_cons, List.flatMap_cons]
    refine run_bind.mpr ⟨_, _, _, rfl, h i (.head _), run_bind.mpr ⟨_, _, [], (List.append_nil _).symm, ?_, .done⟩⟩
    exact ih fun j hj => h j (.tail _ hj)

/-- A run over a list of different items falls into a run for each. -/
theorem run_mapM {ι : Type} [DecidableEq ι] [Inhabited α] {f : ι → Program Query Answer α} {l : List ι} (hl : l.Nodup)
    {es : List (Event Answer)} {results : List α} (h : Run (l.mapM f) es results) :
    ∃ (events : ι → List (Event Answer)) (result : ι → α),
      es = l.flatMap events ∧ results = l.map result ∧ ∀ i ∈ l, Run (f i) (events i) (result i) := by
  induction l generalizing es results with
  | nil =>
    rw [List.mapM_nil] at h
    obtain ⟨rfl, rfl⟩ := run_pure.mp h
    exact ⟨fun _ => [], fun _ => default, rfl, rfl, by simp⟩
  | cons i l ih =>
    obtain ⟨hi, hl⟩ := List.nodup_cons.mp hl
    rw [List.mapM_cons] at h
    obtain ⟨es₁, a, es₂, rfl, hfirst, hrest⟩ := run_bind.mp h
    obtain ⟨es₃, as, es₄, rfl, hothers, hlast⟩ := run_bind.mp hrest
    obtain ⟨rfl, rfl⟩ := run_pure.mp hlast
    obtain ⟨events, result, rfl, rfl, hruns⟩ := ih hl hothers
    have hne : ∀ j ∈ l, j ≠ i := fun j hj he => hi (he ▸ hj)
    refine ⟨Function.update events i es₁, Function.update result i a, ?_, ?_, ?_⟩
    · have : l.flatMap (Function.update events i es₁) = l.flatMap events :=
        List.flatMap_congr fun j hj => Function.update_of_ne (hne j hj) _ _
      simp [this]
    · have : l.map (Function.update result i a) = l.map result :=
        List.map_congr_left fun j hj => Function.update_of_ne (hne j hj) _ _
      simp [this]
    · intro j hj
      obtain rfl | hj := List.mem_cons.mp hj
      · simpa using hfirst
      · rw [Function.update_of_ne (hne j hj), Function.update_of_ne (hne j hj)]
        exact hruns j hj

/-! ## What a program asks -/

/-- Whatever it is told, the program asks only questions of one kind. -/
def Asks (P : Query → Prop) : Program Query Answer α → Prop
  | .done _ => True
  | .ask q next => P q ∧ ∀ r, Asks P (next r)

@[simp] theorem asks_done {P : Query → Prop} (a : α) : Asks P (.done a : Program Query Answer α) := trivial

@[simp] theorem asks_ask {P : Query → Prop} {q : Query} {next : Answer q → Program Query Answer α} :
    Asks P (.ask q next) ↔ P q ∧ ∀ r, Asks P (next r) := Iff.rfl

theorem Asks.bind {P : Query → Prop} {p : Program Query Answer α} {f : α → Program Query Answer β} (hp : Asks P p)
    (hf : ∀ a, Asks P (f a)) : Asks P (p >>= f) := by
  induction p with
  | done a => exact hf a
  | ask q next ih => exact ⟨hp.1, fun r => ih r (hp.2 r)⟩

theorem Asks.mono {P Q : Query → Prop} {p : Program Query Answer α} (hp : Asks P p) (h : ∀ q, P q → Q q) : Asks Q p := by
  induction p with
  | done a => trivial
  | ask q next ih => exact ⟨h q hp.1, fun r => ih r (hp.2 r)⟩

theorem Asks.of_run {P : Query → Prop} {p : Program Query Answer α} {es : List (Event Answer)} {a : α} (hp : Asks P p)
    (h : Run p es a) : ∀ e ∈ es, P e.query := by
  induction h with
  | done => simp
  | ask _ ih =>
    intro e he
    rcases List.mem_cons.mp he with rfl | he
    · exact hp.1
    · exact ih (hp.2 _) e he

/-- Whatever it is told, the program returns only values of one kind. -/
def Returns (P : α → Prop) : Program Query Answer α → Prop
  | .done a => P a
  | .ask _ next => ∀ r, Returns P (next r)

theorem Returns.bind {P : α → Prop} {Q : β → Prop} {p : Program Query Answer α} {f : α → Program Query Answer β}
    (hp : Returns P p) (hf : ∀ a, P a → Returns Q (f a)) : Returns Q (p >>= f) := by
  induction p with
  | done a => exact hf a hp
  | ask q next ih => exact fun r => ih r (hp r)

theorem returns_true (p : Program Query Answer α) : Returns (fun _ => True) p := by
  induction p with
  | done a => trivial
  | ask q next ih => exact ih

/-- A program in a row, whatever the first one returns. -/
theorem Returns.bind_any {Q : β → Prop} {p : Program Query Answer α} {f : α → Program Query Answer β}
    (hf : ∀ a, Returns Q (f a)) : Returns Q (p >>= f) := (returns_true p).bind fun a _ => hf a

theorem Returns.of_run {P : α → Prop} {p : Program Query Answer α} {es : List (Event Answer)} {a : α} (hp : Returns P p)
    (h : Run p es a) : P a := by
  induction h with
  | done => exact hp
  | ask _ ih => exact ih (hp _)

/-! ## Surroundings -/

variable {σ : Type}

/-- What the surroundings are after some questions were answered. -/
def after (react : σ → Event Answer → σ) (s : σ) (es : List (Event Answer)) : σ := es.foldl react s

@[simp] theorem after_nil (react : σ → Event Answer → σ) (s : σ) : after react s [] = s := rfl

@[simp] theorem after_cons (react : σ → Event Answer → σ) (s : σ) (e : Event Answer) (es : List (Event Answer)) :
    after react s (e :: es) = after react (react s e) es := rfl

theorem after_append (react : σ → Event Answer → σ) (s : σ) (es₁ es₂ : List (Event Answer)) :
    after react s (es₁ ++ es₂) = after react (after react s es₁) es₂ := List.foldl_append

/-- Questions none of which changes the surroundings leave them as they are. -/
theorem after_eq_self {react : σ → Event Answer → σ} {es : List (Event Answer)} (h : ∀ e ∈ es, ∀ s, react s e = s) (s : σ) :
    after react s es = s := by
  induction es with
  | nil => rfl
  | cons e es ih =>
    rw [after_cons, h e (by simp)]
    exact ih fun e' he' => h e' (by simp [he'])

/-- A program played against surroundings that answer by a rule. -/
def play (respond : σ → (q : Query) → Answer q) (react : σ → Event Answer → σ) :
    Program Query Answer α → σ → List (Event Answer) × α
  | .done a, _ => ([], a)
  | .ask q next, s =>
    let e : Event Answer := ⟨q, respond s q⟩
    let rest := play respond react (next e.answer) (react s e)
    (e :: rest.1, rest.2)

/-- Two programs in a row are played one after the other. -/
theorem play_bind (respond : σ → (q : Query) → Answer q) (react : σ → Event Answer → σ) (p : Program Query Answer α)
    (f : α → Program Query Answer β) (s : σ) :
    play respond react (p >>= f) s =
      ((play respond react p s).1 ++ (play respond react (f (play respond react p s).2) (after react s (play respond react p s).1)).1,
        (play respond react (f (play respond react p s).2) (after react s (play respond react p s).1)).2) := by
  induction p generalizing s with
  | done a => rfl
  | ask q next ih =>
    rw [Program.bind_ask, play, ih]
    rfl

theorem run_play (respond : σ → (q : Query) → Answer q) (react : σ → Event Answer → σ) (p : Program Query Answer α) (s : σ) :
    Run p (play respond react p s).1 (play respond react p s).2 := by
  induction p generalizing s with
  | done a => exact .done
  | ask q next ih => exact .ask (ih _ _)

/-! ## Surroundings that stay -/

/-- What a program returns where every question always gets the same answer. -/
def answered (respond : (q : Query) → Answer q) : Program Query Answer α → α
  | .done a => a
  | .ask q next => answered respond (next (respond q))

@[simp] theorem answered_done (respond : (q : Query) → Answer q) (a : α) :
    answered respond (.done a : Program Query Answer α) = a := rfl

@[simp] theorem answered_pure (respond : (q : Query) → Answer q) (a : α) :
    answered respond (pure a : Program Query Answer α) = a := rfl

@[simp] theorem answered_ask (respond : (q : Query) → Answer q) (q : Query) (next : Answer q → Program Query Answer α) :
    answered respond (.ask q next) = answered respond (next (respond q)) := rfl

@[simp] theorem answered_bind (respond : (q : Query) → Answer q) (p : Program Query Answer α) (f : α → Program Query Answer β) :
    answered respond (p >>= f) = answered respond (f (answered respond p)) := by
  induction p with
  | done a => rfl
  | ask q next ih => exact ih (respond q)

/-- Two surroundings that answer the questions of a program alike are told apart by nothing it returns. -/
theorem answered_congr {P : Query → Prop} {respond respond' : (q : Query) → Answer q} {p : Program Query Answer α}
    (hp : Asks P p) (h : ∀ q, P q → respond q = respond' q) : answered respond p = answered respond' p := by
  induction p with
  | done a => rfl
  | ask q next ih => rw [answered_ask, answered_ask, h q hp.1, ih _ (hp.2 _)]

/-- A program whose questions leave the surroundings as they are returns what their answers make of it. -/
theorem play_still {P : Query → Prop} {respond : σ → (q : Query) → Answer q} {react : σ → Event Answer → σ}
    {p : Program Query Answer α} {s : σ} (hp : Asks P p) (h : ∀ q, P q → ∀ a, react s ⟨q, a⟩ = s) :
    (play respond react p s).2 = answered (respond s) p ∧ after react s (play respond react p s).1 = s := by
  induction p with
  | done a => exact ⟨rfl, rfl⟩
  | ask q next ih =>
    obtain ⟨hresult, hafter⟩ := ih (respond s q) (hp.2 _)
    simp only [play, h q hp.1, after_cons, answered_ask]
    exact ⟨hresult, hafter⟩

end

end LinuxHardener.Dialogue
