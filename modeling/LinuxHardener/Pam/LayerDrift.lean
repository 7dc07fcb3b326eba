import LinuxHardener.Common.Readers
import Mathlib.Data.List.Dedup
import Mathlib.Data.List.Sort

/-
  The keys an `/etc` file hides from its `/usr/etc` counterpart.

  A key is taken to be the first word of a line; to the directive reader it ends at a `=`
  as well, and a line that is nothing but its key sets nothing.

  | Source        | Here         |
  |---------------|--------------|
  | `keys_set_by` | `keysSetBy`  |
  | `masked_keys` | `maskedKeys` |

  What is proved:
    1. `maskedKeys_exact_iff` — when the keys named are those the reader finds set in the
       vendor's file and not in the administrator's.
    2. `deny_is_not_masked` — an administrator's `deny=5` under a vendor's `deny = 3`.
-/
namespace LinuxHardener.Pam

open Text (isWhitespace)
open LineText Common

/-- The lines that set something, trimmed. -/
def liveLines (content : Chars) : List Chars :=
  ((lines content).map trim).filter fun line => !line.isEmpty && !isComment line

/-- The key of every line that sets one. -/
def keysSetBy (content : Chars) : List Chars := (liveLines content).filterMap fun line => (words line).head?

/-- The keys `vendor` sets that `admin` does not, sorted and named once each. -/
def maskedKeys (admin vendor : Chars) : List Chars :=
  ((keysSetBy vendor).filter fun key => !(keysSetBy admin).contains key).dedup.insertionSort (· ≤ ·)

/-- The directive reader finds the key set. -/
def FindsSet (content key : Chars) : Prop := (parseConfigValue content key .auto true).isSome

/-! ## The shapes of a line -/

section

variable (content k : Chars)

/-- The key is all there is to a line. -/
def Alone : Prop := k ∈ liveLines content ∧ behindKey k = []

/-- A blank follows the key. -/
def Spaced : Prop := ∃ t ∈ liveLines content, keyOf t = k ∧ ∃ c, (behindKey t).head? = some c ∧ isWhitespace c = true

/-- A `=` follows the key. -/
def Glued : Prop := ∃ t ∈ liveLines content, keyOf t = k ∧ (behindKey t).head? = some '='

/-- The word is a line's first. -/
def Opens : Prop := ∃ t ∈ liveLines content, t.takeWhile (fun c => !isWhitespace c) = k

end

/-- When the difference of first words is the difference of keys that are set. -/
structure DriftExact (admin vendor : Chars) : Prop where
  glued : ∀ w, '=' ∈ w → Opens vendor w → Opens admin w
  spaced : ∀ k, Spaced vendor k → ¬ Spaced admin k → (Alone admin k ↔ Glued admin k)
  alone : ∀ k, Alone vendor k → ¬ Spaced vendor k → ¬ Spaced admin k → Alone admin k

theorem mem_liveLines {content t : Chars} :
    t ∈ liveLines content ↔ (∃ line ∈ splitInclusive content, trim line = t) ∧ t ≠ [] ∧ isComment t = false := by
  unfold liveLines
  rw [map_trim_lines]
  simp

section

variable {content t : Chars}

theorem head_of_mem (h : t ∈ liveLines content) : ∃ c r, t = c :: r ∧ isWhitespace c = false := by
  obtain ⟨⟨line, _, rfl⟩, hne, _⟩ := mem_liveLines.mp h
  cases ht : trim line with
  | nil => exact absurd ht hne
  | cons c r =>
    refine ⟨c, r, rfl, head_trim (s := line) ?_⟩
    rw [ht]
    rfl

theorem words_head_of_mem (h : t ∈ liveLines content) : (words t).head? = some (t.takeWhile fun c => !isWhitespace c) := by
  obtain ⟨c, r, rfl, hc⟩ := head_of_mem h
  rw [words_cons hc]
  rfl

theorem mem_keysSetBy {k : Chars} : k ∈ keysSetBy content ↔ Opens content k := by
  unfold keysSetBy Opens
  rw [List.mem_filterMap]
  apply exists_congr
  intro t
  constructor
  · rintro ⟨ht, hk⟩
    rw [words_head_of_mem ht] at hk
    exact ⟨ht, Option.some.inj hk⟩
  · rintro ⟨ht, hk⟩
    refine ⟨ht, ?_⟩
    rw [words_head_of_mem ht, hk]

theorem mem_maskedKeys {admin vendor k : Chars} : k ∈ maskedKeys admin vendor ↔ Opens vendor k ∧ ¬ Opens admin k := by
  unfold maskedKeys
  rw [List.mem_insertionSort, List.mem_dedup, List.mem_filter, mem_keysSetBy, ← @mem_keysSetBy admin]
  simp

/-- Sorted, and named once each. -/
theorem maskedKeys_sorted (admin vendor : Chars) :
    (maskedKeys admin vendor).Pairwise (· ≤ ·) ∧ (maskedKeys admin vendor).Nodup :=
  ⟨List.pairwise_insertionSort _ _, (List.perm_insertionSort _ _).nodup_iff.mpr (List.nodup_dedup _)⟩

/-- A first word is the key, and what follows it up to a blank. -/
theorem firstWord_eq (t : Chars) :
    t.takeWhile (fun c => !isWhitespace c) = keyOf t ++ (behindKey t).takeWhile (fun c => !isWhitespace c) := by
  have hkey : ∀ c ∈ keyOf t, (!isWhitespace c) = true := by
    intro c hc
    have := List.mem_takeWhile_imp hc
    cases hw : isWhitespace c with
    | true => simp [endsKey, hw] at this
    | false => rfl
  calc t.takeWhile (fun c => !isWhitespace c)
      = (keyOf t ++ behindKey t).takeWhile (fun c => !isWhitespace c) := by rw [keyOf_append_behindKey]
    _ = _ := List.takeWhile_append_of_pos hkey

theorem equals_not_mem_keyOf (t : Chars) : '=' ∉ keyOf t := by
  intro h
  have := List.mem_takeWhile_imp h
  simp [endsKey] at this

/-- A first word without `=` is a key that a blank follows, or that stands alone. -/
theorem opens_iff {k : Chars} (hk : '=' ∉ k) : Opens content k ↔ Spaced content k ∨ Alone content k := by
  constructor
  · rintro ⟨t, ht, rfl⟩
    rw [firstWord_eq] at hk ⊢
    cases hb : behindKey t with
    | nil =>
      right
      have hself : keyOf t = t := by
        have := keyOf_append_behindKey t
        rwa [hb, List.append_nil] at this
      rw [List.takeWhile_nil, List.append_nil, hself]
      exact ⟨ht, hb⟩
    | cons c r =>
      left
      have hend : endsKey c = true := endsKey_of_behindKey (t := t) (by rw [hb]; rfl)
      have hw : isWhitespace c = true := by
        by_contra hw
        apply hk
        have hc : c = '=' := by simpa [endsKey, hw] using hend
        have hopens : isWhitespace '=' = false := by decide
        simp [hb, hc, hopens]
      refine ⟨t, ht, ?_, c, by rw [hb]; rfl, hw⟩
      simp [hw]
  · rintro (⟨t, ht, rfl, c, hc, hw⟩ | ⟨ht, hb⟩)
    · refine ⟨t, ht, ?_⟩
      rw [firstWord_eq]
      cases hb : behindKey t with
      | nil => simp
      | cons d r =>
        rw [hb] at hc
        cases hc
        simp [hw]
    · refine ⟨k, ht, ?_⟩
      have hself := keyOf_append_behindKey k
      rw [hb, List.append_nil] at hself
      rw [firstWord_eq, hb, hself]
      simp

/-- A first word with a `=` is a key glued to it. -/
theorem glued_of_opens {w : Chars} (hw : '=' ∈ w) (h : Opens content w) : Glued content (keyOf w) := by
  obtain ⟨t, ht, rfl⟩ := h
  have hkey : keyOf (t.takeWhile fun c => !isWhitespace c) = keyOf t := by
    unfold keyOf
    rw [List.takeWhile_takeWhile]
    apply congrArg (fun p => List.takeWhile p t)
    funext c
    cases h : isWhitespace c <;> simp [endsKey, h, beq_eq_decide]
  refine ⟨t, ht, hkey.symm, ?_⟩
  rw [firstWord_eq] at hw
  rcases List.mem_append.mp hw with hw | hw
  · exact absurd hw (equals_not_mem_keyOf t)
  · cases hb : behindKey t with
    | nil => simp [hb] at hw
    | cons c r =>
      have hend : endsKey c = true := endsKey_of_behindKey (t := t) (by rw [hb]; rfl)
      have hc : isWhitespace c = false := by
        by_contra hc
        simp [hb, hc] at hw
      have heq : c = '=' := by simpa [endsKey, hc] using hend
      rw [heq]
      rfl

theorem opens_of_glued {k : Chars} (h : Glued content k) : ∃ w, '=' ∈ w ∧ keyOf w = k ∧ Opens content w := by
  obtain ⟨t, ht, rfl, hb⟩ := h
  obtain ⟨r, hr⟩ : ∃ r, behindKey t = '=' :: r := by
    cases hb' : behindKey t with
    | nil => simp [hb'] at hb
    | cons c r =>
      rw [hb'] at hb
      cases hb
      exact ⟨r, rfl⟩
  have hword : t.takeWhile (fun c => !isWhitespace c) = keyOf t ++ '=' :: r.takeWhile fun c => !isWhitespace c := by
    rw [firstWord_eq, hr, List.takeWhile_cons, if_pos (by decide)]
  refine ⟨_, ?_, ?_, t, ht, rfl⟩
  · rw [hword]
    simp
  · rw [hword]
    unfold keyOf
    rw [List.takeWhile_append_of_pos]
    · simp [endsKey]
    · intro c hc
      have := List.mem_takeWhile_imp hc
      exact this

/-- A first word without `=` is a directive's name. -/
theorem directiveName_of_opens {k : Chars} (hk : '=' ∉ k) (h : Opens content k) : DirectiveName k := by
  obtain ⟨t, ht, rfl⟩ := h
  obtain ⟨c, r, rfl, hc⟩ := head_of_mem ht
  refine ⟨by simp [hc], ?_, ?_⟩
  · intro d hd
    have hw := List.mem_takeWhile_imp hd
    have hne : d ≠ '=' := fun he => hk (he ▸ hd)
    simp only [Bool.not_eq_true'] at hw
    simp [endsKey, hw, hne]
  · have hlive := (mem_liveLines.mp ht).2.2
    simpa [isComment, hc] using hlive

theorem findsSet_iff {k : Chars} (hk : DirectiveName k) : FindsSet content k ↔ Spaced content k ∨ Glued content k := by
  unfold FindsSet
  rw [parse_isSome_iff hk]
  constructor
  · rintro ⟨line, hline, hlive, hmore⟩
    obtain ⟨hcomment, hkey⟩ := (isLive_iff hk.ne_nil).mp hlive
    have hkey : keyOf (trim line) = k := by simpa [keyMatches] using hkey
    have hmem : trim line ∈ liveLines content :=
      mem_liveLines.mpr ⟨⟨line, hline, rfl⟩, trim_ne_nil_of_isLive hk.ne_nil hlive, hcomment⟩
    cases hb : behindKey (trim line) with
    | nil => exact absurd hb hmore
    | cons c r =>
      have hend : endsKey c = true := endsKey_of_behindKey (t := trim line) (by rw [hb]; rfl)
      cases hw : isWhitespace c with
      | true => exact .inl ⟨_, hmem, hkey, c, by rw [hb]; rfl, hw⟩
      | false =>
        have heq : c = '=' := by simpa [endsKey, hw] using hend
        exact .inr ⟨_, hmem, hkey, by rw [hb, heq]; rfl⟩
  · have hset : ∀ t ∈ liveLines content, keyOf t = k → behindKey t ≠ [] →
        ∃ line ∈ splitInclusive content, isLive true k line = true ∧ behindKey (trim line) ≠ [] := by
      intro t ht hkey hmore
      obtain ⟨⟨line, hline, rfl⟩, _, hcomment⟩ := mem_liveLines.mp ht
      exact ⟨line, hline, (isLive_iff hk.ne_nil).mpr ⟨hcomment, by simp [keyMatches, hkey]⟩, hmore⟩
    rintro (⟨t, ht, hkey, c, hc, _⟩ | ⟨t, ht, hkey, hb⟩)
    · exact hset t ht hkey fun he => by simp [he] at hc
    · exact hset t ht hkey fun he => by simp [he] at hb

end

/-! ## The difference -/

/-- The keys named are those the reader finds set in the vendor's file alone, exactly where
the first words tell so. -/
theorem maskedKeys_exact_iff (admin vendor : Chars) :
    (∀ k, k ∈ maskedKeys admin vendor ↔ DirectiveName k ∧ FindsSet vendor k ∧ ¬ FindsSet admin k) ↔
      DriftExact admin vendor := by
  constructor
  · intro h
    have hglued : ∀ w, '=' ∈ w → Opens vendor w → Opens admin w := by
      intro w hw hopens
      by_contra hnot
      obtain ⟨hname, _⟩ := (h w).mp (mem_maskedKeys.mpr ⟨hopens, hnot⟩)
      have := hname.no_end '=' hw
      simp [endsKey] at this
    refine ⟨hglued, ?_, ?_⟩
    · intro k hvendor hadmin
      have hk : '=' ∉ k := by
        obtain ⟨t, _, rfl, _⟩ := hvendor
        exact equals_not_mem_keyOf t
      have hopens : Opens vendor k := (opens_iff hk).mpr (.inl hvendor)
      have hname := directiveName_of_opens hk hopens
      have hiff := h k
      rw [mem_maskedKeys, opens_iff hk, opens_iff hk, findsSet_iff hname, findsSet_iff hname] at hiff
      grind
    · intro k halone hvendor hadmin
      have hk : '=' ∉ k := by
        have hself := keyOf_append_behindKey k
        rw [halone.2, List.append_nil] at hself
        rw [← hself]
        exact equals_not_mem_keyOf k
      have hname := directiveName_of_opens hk ((opens_iff hk).mpr (.inr halone))
      have hiff := h k
      rw [mem_maskedKeys, opens_iff hk, opens_iff hk, findsSet_iff hname, findsSet_iff hname] at hiff
      have hcarry : Glued vendor k → Glued admin k := by
        intro hg
        obtain ⟨w, hw, rfl, hopens⟩ := opens_of_glued hg
        exact glued_of_opens hw (hglued w hw hopens)
      grind
  · intro h k
    have hcarry : Glued vendor k → Glued admin k := by
      intro hg
      obtain ⟨w, hw, rfl, hopens⟩ := opens_of_glued hg
      exact glued_of_opens hw (h.glued w hw hopens)
    rw [mem_maskedKeys]
    by_cases hk : '=' ∈ k
    · constructor
      · rintro ⟨hopens, hnot⟩
        exact absurd (h.glued k hk hopens) hnot
      · rintro ⟨hname, _⟩
        have := hname.no_end '=' hk
        simp [endsKey] at this
    · have hspaced := h.spaced k
      have halone := h.alone k
      constructor
      · rintro ⟨hopens, hnot⟩
        have hname := directiveName_of_opens hk hopens
        rw [findsSet_iff hname, findsSet_iff hname]
        rw [opens_iff hk] at hopens hnot
        grind
      · rintro ⟨hname, hset, hnot⟩
        rw [findsSet_iff hname] at hset hnot
        rw [opens_iff hk, opens_iff hk]
        grind

/-- Where every key is followed by a blank, the keys named are those. -/
theorem maskedKeys_exact_of_spaced {admin vendor : Chars}
    (h : ∀ t ∈ liveLines admin ++ liveLines vendor, ∃ c, (behindKey t).head? = some c ∧ isWhitespace c = true) :
    DriftExact admin vendor := by
  have hglued : ∀ t ∈ liveLines admin ++ liveLines vendor, (behindKey t).head? ≠ some '=' := by
    intro t ht he
    obtain ⟨c, hc, hw⟩ := h t ht
    rw [he] at hc
    cases hc
    exact absurd hw (by decide)
  have halone : ∀ t ∈ liveLines admin ++ liveLines vendor, behindKey t ≠ [] := by
    intro t ht he
    obtain ⟨c, hc, _⟩ := h t ht
    rw [he] at hc
    cases hc
  refine ⟨?_, ?_, ?_⟩
  · intro w hw hopens
    obtain ⟨t, ht, _, hb⟩ := glued_of_opens hw hopens
    exact absurd hb (hglued t (List.mem_append_right _ ht))
  · intro k _ _
    constructor
    · rintro ⟨ht, hb⟩
      exact absurd hb (halone k (List.mem_append_left _ ht))
    · rintro ⟨t, ht, _, hb⟩
      exact absurd hb (hglued t (List.mem_append_left _ ht))
  · rintro k ⟨ht, hb⟩ _ _
    exact absurd hb (halone k (List.mem_append_right _ ht))

/-- An administrator who wrote `deny=5` is told that the vendor's `deny` is masked. -/
theorem deny_is_not_masked :
    ¬ ∀ k, k ∈ maskedKeys "deny=5\n".toList "deny = 3\n".toList ↔
      DirectiveName k ∧ FindsSet "deny = 3\n".toList k ∧ ¬ FindsSet "deny=5\n".toList k := by
  intro h
  have hmem : "deny".toList ∈ maskedKeys "deny=5\n".toList "deny = 3\n".toList := by decide
  have hnot := ((h _).mp hmem).2.2
  unfold FindsSet at hnot
  exact hnot (by decide)

end LinuxHardener.Pam
