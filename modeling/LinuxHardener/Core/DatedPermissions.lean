import LinuxHardener.Compliance.Scope
import LinuxHardener.Core.Exceptions
import Mathlib.Data.Prod.Lex

/-
  The two permissions that carry a date: a policy exception and a scope exclusion.

  The days are the date library's, a line on which months can be added; it reads a date off
  a text or none.

  What is proved:
    1. `failsClosed_scopeExclusion` — a scope exclusion fails closed, whatever its dates say.
    2. `permissionsFailClosed_iff` — a policy exception does exactly where its end date can be
       read.
-/
namespace LinuxHardener.Core

open LineText (Chars)
open Compliance (ScopeExclusion CivilDate)

/-- The date library. -/
structure Chrono where
  Date : Type
  order : LinearOrder Date
  epoch : Date
  parse : Chars → Option Date
  checkedAddMonths : Date → Nat → Option Date

namespace Chrono

instance (c : Chrono) : LinearOrder c.Date := c.order

/-- The library as the exceptions use it, on a day. -/
def onDay (c : Chrono) (today : c.Date) : Calendar where
  Date := c.Date
  before a b := decide (a < b)
  parse := c.parse
  today := today

/-- The library as the exclusions use it. -/
def calendar (c : Chrono) : Compliance.Calendar where
  Date := c.Date
  le a b := decide (a ≤ b)
  parseIsoDate s := c.parse s.toList
  checkedAddMonths := c.checkedAddMonths

end Chrono

variable {c : Chrono}

/-- A permission that is in force up to some day, and on no day when the end stated for it is no date. -/
structure FailsClosed (c : Chrono) (inForce : c.Date → Bool) (endDate : Option Chars) : Prop where
  downward : ∀ day later, day ≤ later → inForce later = true → inForce day = true
  closed : ∀ text, endDate = some text → c.parse text = none → ∀ day, inForce day = false

/-- The two permissions fail closed. -/
structure PermissionsFailClosed (c : Chrono) (e : PolicyException) (x : ScopeExclusion) (frameworkId : String) : Prop where
  exception : FailsClosed c (fun day => e.isValid (c.onDay day)) e.expires
  exclusion : FailsClosed c (fun day => x.isValidOn c.calendar frameworkId day) (x.reviewBy.map String.toList)

/-- What is in force until a deadline, if there is one, is in force before. -/
theorem downward_of_deadline {deadline : Option c.Date} {day later : c.Date} (hle : day ≤ later)
    (h : ∃ d, deadline = some d ∧ later ≤ d) : ∃ d, deadline = some d ∧ day ≤ d := by
  obtain ⟨d, hd, hlater⟩ := h
  exact ⟨d, hd, hle.trans hlater⟩

theorem calendar_le (a b : c.Date) : c.calendar.le a b = true ↔ a ≤ b := decide_eq_true_iff

theorem isValidOn_iff (x : ScopeExclusion) (frameworkId : String) (day : c.Date) :
    x.isValidOn c.calendar frameworkId day = true ↔ ∃ d : c.Date, x.reviewDeadline c.calendar frameworkId = some d ∧ day ≤ d := by
  unfold ScopeExclusion.isValidOn
  cases x.reviewDeadline c.calendar frameworkId with
  | none => simp
  | some d =>
    have hle := calendar_le day d
    constructor
    · intro h
      exact ⟨d, rfl, hle.mp h⟩
    · rintro ⟨d', hd', h⟩
      cases hd'
      exact hle.mpr h

/-- A review date that is none leaves no deadline. -/
theorem reviewDeadline_of_unread {x : ScopeExclusion} {text : String} (hreview : x.reviewBy = some text)
    (hparse : c.parse text.toList = none) (frameworkId : String) : x.reviewDeadline c.calendar frameworkId = none := by
  unfold ScopeExclusion.reviewDeadline
  rw [hreview]
  cases Compliance.ComplianceFramework.fromId frameworkId with
  | none => rfl
  | some framework => exact hparse

/-- A scope exclusion fails closed. -/
theorem failsClosed_scopeExclusion (x : ScopeExclusion) (frameworkId : String) :
    FailsClosed c (fun day => x.isValidOn c.calendar frameworkId day) (x.reviewBy.map String.toList) where
  downward := by
    intro day later hle h
    rw [isValidOn_iff] at h ⊢
    exact downward_of_deadline hle h
  closed := by
    intro text htext hparse day
    obtain ⟨review, hreview, rfl⟩ := Option.map_eq_some_iff.mp htext
    rw [Bool.eq_false_iff, Ne, isValidOn_iff]
    rintro ⟨d, hd, -⟩
    rw [reviewDeadline_of_unread hreview hparse] at hd
    cases hd

theorem isValid_iff (e : PolicyException) (day : c.Date) :
    e.isValid (c.onDay day) = true ↔ e.allowed = true ∧ ∀ d, e.expires.bind c.parse = some d → day ≤ d := by
  unfold PolicyException.isValid PolicyException.isExpired
  rw [Bool.and_eq_true, Bool.not_eq_true']
  refine and_congr Iff.rfl ?_
  have hparse : e.expires.bind (c.onDay day).parse = e.expires.bind c.parse := rfl
  rw [hparse]
  cases e.expires.bind c.parse with
  | none => exact ⟨fun _ d hd => absurd hd (Option.some_ne_none d).symm, fun _ => rfl⟩
  | some d =>
    have hbefore : (c.onDay day).before d (c.onDay day).today = false ↔ day ≤ d := decide_eq_false_iff_not.trans not_lt
    dsimp only
    rw [hbefore]
    exact ⟨fun h d' hd' => Option.some.inj hd' ▸ h, fun h => h d rfl⟩

/-- An exception is in force up to some day, or on all. -/
theorem downward_isValid (e : PolicyException) {day later : c.Date} (hle : day ≤ later) (h : e.isValid (c.onDay later) = true) :
    e.isValid (c.onDay day) = true := by
  rw [isValid_iff] at h ⊢
  exact ⟨h.1, fun d hd => hle.trans (h.2 d hd)⟩

/-- A policy exception fails closed exactly where it is not allowed, or its end date is absent or
can be read; a scope exclusion always does. -/
theorem permissionsFailClosed_iff (c : Chrono) (e : PolicyException) (x : ScopeExclusion) (frameworkId : String) :
    PermissionsFailClosed c e x frameworkId ↔
      (e.allowed = true → ∀ text, e.expires = some text → (c.parse text).isSome = true) := by
  constructor
  · intro h hallowed text htext
    rw [Option.isSome_iff_ne_none]
    intro hparse
    have hvalid : e.isValid (c.onDay c.epoch) = true := by
      rw [isValid_iff, htext, Option.bind_some, hparse]
      exact ⟨hallowed, fun d hd => by cases hd⟩
    rw [h.exception.closed text htext hparse c.epoch] at hvalid
    cases hvalid
  · intro h
    refine ⟨⟨fun day later hle => downward_isValid e hle, fun text htext hparse day => ?_⟩, failsClosed_scopeExclusion x frameworkId⟩
    rw [Bool.eq_false_iff, Ne, isValid_iff]
    rintro ⟨hallowed, -⟩
    have hread := h hallowed text htext
    rw [hparse] at hread
    cases hread

/-! ## A mistyped date -/

/-- The civil calendar, its days in the order of the year, the month and the day. -/
def civil : Chrono where
  Date := CivilDate
  order := LinearOrder.lift' (fun d => toLex (d.year, toLex (d.month, d.day))) fun a b h => by
    obtain ⟨y, m, d⟩ := a
    obtain ⟨y', m', d'⟩ := b
    simp only [toLex_inj, Prod.mk.injEq] at h
    rw [h.1, h.2.1, h.2.2]
  epoch := ⟨1970, 1, 1⟩
  parse text := CivilDate.parse (String.ofList text)
  checkedAddMonths d n := some (d.addMonths n)

/-- An exception until 31 June. -/
def untilJune : PolicyException where
  value := "yes"
  allowed := true
  reason := "migration"
  approvedBy := none
  approvedDate := none
  ticket := none
  expires := some "2026-06-31"

def newYear2099 : civil.Date := (⟨2099, 1, 1⟩ : CivilDate)

/-- It never ends. -/
theorem untilJune_stays : ¬ PermissionsFailClosed civil untilJune ⟨"", none, none, []⟩ "cis" := by
  intro h
  have hvalid : untilJune.isValid (civil.onDay newYear2099) = true := by
    rw [isValid_iff]
    refine ⟨rfl, fun d hd => ?_⟩
    have hnone : untilJune.expires.bind civil.parse = none := by decide
    rw [hnone] at hd
    cases hd
  rw [h.exception.closed "2026-06-31" rfl (by decide) newYear2099] at hvalid
  cases hvalid

end LinuxHardener.Core
