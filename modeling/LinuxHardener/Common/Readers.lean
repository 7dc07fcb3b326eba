import LinuxHardener.Common.DirectiveWriter

/-
  What a line gives a directive.

  A directive's name holds no blank and no `=`, and does not open a comment. For such a
  name the two readers go by the key of a line, the text in front of its first blank or
  `=`, though one of them only strips the name off the line's front.

  What is proved:
    1. `keyValueValue_eq` — a `Key = Value` reader finds the name where it is the key.
    2. `parse_eq` — a file's reading, line by line, in every format.
    3. `parse_isSome_iff` — a directive is set where a live line has its key and does not
       end with it.
-/
namespace LinuxHardener.Common

open Text hiding trim
open LineText

/-- A name that can be set and read. -/
structure DirectiveName (name : Chars) : Prop where
  ne_nil : name ≠ []
  no_end : ∀ c ∈ name, endsKey c = false
  live : isComment name = false

/-- The key of a line. -/
def keyOf (trimmed : Chars) : Chars := trimmed.takeWhile fun c => !endsKey c

/-- What follows it. -/
def behindKey (trimmed : Chars) : Chars := trimmed.dropWhile fun c => !endsKey c

/-- The value of what follows a key, to a `Key = Value` reader. -/
def behindValue (rest : Chars) : Option Chars :=
  match trimStart rest with
  | '=' :: value => some (trim value)
  | _ => (words rest).head?

/-! ## Comparing names -/

theorem toNat_toLower (c : Char) : c.toLower.toNat = if 65 ≤ c.toNat ∧ c.toNat ≤ 90 then c.toNat + 32 else c.toNat := by
  have hval : c.toNat = c.val.toNat := rfl
  unfold Char.toLower
  split
  · next h =>
    have hle : 65 ≤ c.toNat ∧ c.toNat ≤ 90 := by
      rw [hval]
      exact ⟨UInt32.le_iff_toNat_le.mp h.1, UInt32.le_iff_toNat_le.mp h.2⟩
    rw [if_pos hle]
    show (c.val + 32).toNat = _
    rw [UInt32.toNat_add, ← hval]
    show (c.toNat + 32) % 4294967296 = _
    omega
  · next h =>
    rw [if_neg]
    intro hle
    rw [hval] at hle
    exact h ⟨UInt32.le_iff_toNat_le.mpr hle.1, UInt32.le_iff_toNat_le.mpr hle.2⟩

/-- What ends a key has no case. -/
theorem endsKey_toLower (c : Char) : endsKey c.toLower = endsKey c := by
  have h := toNat_toLower c
  split at h
  · next hupper =>
    have heq : (c == '=') = false := by
      apply beq_false_of_ne
      rintro rfl
      revert hupper
      decide
    have heq' : (c.toLower == '=') = false := by
      apply beq_false_of_ne
      intro he
      rw [he] at h
      have hcode : ('=' : Char).toNat = 61 := rfl
      omega
    have hw : isWhitespace c = false := by simp [isWhitespace]; omega
    have hw' : isWhitespace c.toLower = false := by simp [isWhitespace, h]; omega
    rw [endsKey, endsKey, hw, hw', heq, heq']
  · rw [Char.toNat_inj.mp h]

section

variable {cs : Bool} {key name : Chars}

theorem keyMatches_iff : keyMatches cs key name = true ↔ if cs then key = name else key.map Char.toLower = name.map Char.toLower := by
  cases cs <;> simp [keyMatches, eqIgnoreCase]

theorem keyMatches_refl (cs : Bool) (name : Chars) : keyMatches cs name name = true := by
  rw [keyMatches_iff]
  cases cs <;> simp

/-- A name spelled the same is spelled the same whatever the case. -/
theorem keyMatches_lower (h : keyMatches cs key name = true) : key.map Char.toLower = name.map Char.toLower := by
  rw [keyMatches_iff] at h
  cases cs with
  | true => exact congrArg (List.map Char.toLower) h
  | false => exact h

theorem length_of_keyMatches (h : keyMatches cs key name = true) : key.length = name.length := by
  have := congrArg List.length (keyMatches_lower h)
  simpa using this

theorem no_end_of_keyMatches (h : keyMatches cs key name = true) (hname : ∀ c ∈ name, endsKey c = false) :
    ∀ c ∈ key, endsKey c = false := by
  intro c hc
  have hmem : c.toLower ∈ name.map Char.toLower := by
    rw [← keyMatches_lower h]
    exact List.mem_map_of_mem hc
  obtain ⟨d, hd, heq⟩ := List.mem_map.mp hmem
  rw [← endsKey_toLower, ← heq, endsKey_toLower]
  exact hname d hd

theorem not_keyMatches_nil (hname : name ≠ []) : keyMatches cs [] name = false := by
  by_contra h
  have := length_of_keyMatches (Bool.not_eq_false _ ▸ h)
  cases name with
  | nil => exact hname rfl
  | cons c name => simp at this

end

/-! ## One line -/

theorem splitDirective_fst (t : Chars) : (splitDirective t).1 = keyOf t := by
  unfold splitDirective
  dsimp only
  split <;> rfl

theorem keyOf_append_behindKey (t : Chars) : keyOf t ++ behindKey t = t := List.takeWhile_append_dropWhile

/-- A key is followed by what ends it, if anything. -/
theorem endsKey_of_behindKey {t : Chars} {c : Char} (h : (behindKey t).head? = some c) : endsKey c = true := by
  have := List.head?_dropWhile_not (fun c => !endsKey c) t
  unfold behindKey at h
  rw [h] at this
  simpa using this

section

variable {cs : Bool} {name t : Chars}

theorem stripPrefixWithCase_eq (t name : Chars) (cs : Bool) :
    stripPrefixWithCase t name cs = if keyMatches cs (t.take name.length) name then some (t.drop name.length) else none := by
  unfold stripPrefixWithCase
  cases cs with
  | true =>
    rw [if_pos rfl]
    by_cases h : t.take name.length = name
    · have hpre : name.isPrefixOf t = true := List.isPrefixOf_iff_prefix.mpr (List.prefix_iff_eq_take.mpr h.symm)
      rw [if_pos hpre, if_pos (by simp [keyMatches, h])]
    · have hpre : ¬ name.isPrefixOf t = true := fun hp =>
        h (List.prefix_iff_eq_take.mp (List.isPrefixOf_iff_prefix.mp hp)).symm
      rw [if_neg hpre, if_neg (by simp [keyMatches, h])]
  | false =>
    rw [if_neg (by simp)]
    by_cases h : keyMatches false (t.take name.length) name = true
    · have hlen := length_of_keyMatches h
      rw [List.length_take] at hlen
      rw [if_pos ⟨by omega, h⟩, if_pos h]
    · rw [if_neg (fun hand => h hand.2), if_neg h]

/-- The name is stripped off a line's front where it is the key; where it is only the
start of the key, what is left opens with neither a blank nor `=`. -/
theorem keyValueValue_eq (hn : DirectiveName name) :
    keyValueValue cs name t = if keyMatches cs (keyOf t) name then behindValue (behindKey t) else none := by
  unfold keyValueValue
  rw [stripPrefixWithCase_eq]
  by_cases h : keyMatches cs (t.take name.length) name = true
  · rw [if_pos h]
    have hclean := no_end_of_keyMatches h hn.no_end
    have hpos : ∀ c ∈ t.take name.length, (!endsKey c) = true := fun c hc => by rw [hclean c hc]; rfl
    have hkey : keyOf t = t.take name.length ++ keyOf (t.drop name.length) := by
      calc keyOf t = keyOf (t.take name.length ++ t.drop name.length) := by rw [List.take_append_drop]
        _ = _ := List.takeWhile_append_of_pos hpos
    have hbehind : behindKey t = behindKey (t.drop name.length) := by
      calc behindKey t = behindKey (t.take name.length ++ t.drop name.length) := by rw [List.take_append_drop]
        _ = _ := List.dropWhile_append_of_pos hpos
    cases hd : t.drop name.length with
    | nil =>
      rw [hkey, hbehind, hd]
      simp [keyOf, behindKey, behindValue, trimStart, h]
    | cons c rest =>
      by_cases hc : endsKey c = true
      · have hnil : keyOf (c :: rest) = [] := by simp [keyOf, hc]
        have hall : behindKey (c :: rest) = c :: rest := by simp [behindKey, hc]
        rw [hkey, hbehind, hd, hnil, hall, List.append_nil, if_pos h]
        unfold behindValue
        dsimp only
        split
        · next v heq => simp only [heq]
        · next hne =>
          -- What ends the key and does not open a value is a blank.
          have hw : isWhitespace c = true := by
            by_contra hw
            have hc' : c = '=' := by simpa [endsKey, hw] using hc
            subst hc'
            exact hne rest (by simp [trimStart, hw])
          simp [hw]
      · have hw : isWhitespace c = false := by
          cases hw : isWhitespace c with
          | true => simp [endsKey, hw] at hc
          | false => rfl
        have hlong : keyMatches cs (keyOf t) name = false := by
          by_contra hm
          have hlen := length_of_keyMatches (Bool.not_eq_false _ ▸ hm)
          have htake := length_of_keyMatches h
          rw [hkey, hd, List.length_append, htake] at hlen
          simp [keyOf, hc] at hlen
        rw [if_neg (by simp [hlong])]
        dsimp only
        split
        · next v heq =>
          simp only [trimStart, List.dropWhile_cons, hw] at heq
          simp only [Bool.false_eq_true, if_false, List.cons.injEq] at heq
          exact absurd (by simp [endsKey, heq.1]) hc
        · simp [hw]
  · rw [if_neg h, if_neg]
    intro hm
    apply h
    have htake : t.take name.length = keyOf t := by
      have hlen := length_of_keyMatches hm
      have happ := keyOf_append_behindKey t
      rw [← hlen]
      nth_rewrite 2 [← happ]
      exact List.take_left
    rw [htake]
    exact hm

theorem spaceSeparatedValue_eq (cs : Bool) (name t : Chars) :
    spaceSeparatedValue cs name t = if keyMatches cs (keyOf t) name then (words (splitDirective t).2).head? else none := by
  rw [← splitDirective_fst]
  rfl

end

/-! ## A whole file -/

/-- What a trimmed live line gives a directive. `auto` reads `Key = Value` first, which
takes whatever `Key Value` takes. -/
def directiveValue (format : ConfigFormat) (cs : Bool) (name trimmed : Chars) : Option Chars :=
  match format with
  | .spaceSeparated => spaceSeparatedValue cs name trimmed
  | .keyValue | .auto => keyValueValue cs name trimmed

section

variable {cs : Bool} {name t line : Chars}

theorem keyValueValue_ne_none (hn : DirectiveName name) (h : spaceSeparatedValue cs name t ≠ none) :
    keyValueValue cs name t ≠ none := by
  rw [spaceSeparatedValue_eq] at h
  rw [keyValueValue_eq hn]
  split at h
  · next hm =>
    rw [if_pos hm]
    unfold behindValue
    split
    · simp
    · next hne =>
      have hvalue : (splitDirective t).2 = trimStart (behindKey t) := by
        unfold splitDirective
        dsimp only
        split
        · next v heq => exact absurd heq (hne v)
        · rfl
      rw [hvalue, words_trimStart] at h
      exact h
  · exact absurd rfl h

/-- A file's reading, line by line. -/
theorem parse_eq (hn : DirectiveName name) (content : Chars) (format : ConfigFormat) (cs : Bool) :
    parseConfigValue content name format cs =
      (splitInclusive content).findSome? (lineValue (directiveValue format cs name)) := by
  have hspace : ∀ line, lineValue (keyValueValue cs name) line = none → lineValue (spaceSeparatedValue cs name) line = none := by
    intro line h
    unfold lineValue at h ⊢
    dsimp only at h ⊢
    split
    · rfl
    · next hlive =>
      rw [if_neg hlive] at h
      by_contra hne
      exact keyValueValue_ne_none hn hne h
  unfold parseConfigValue
  cases format with
  | spaceSeparated => exact findSome_lines _ content
  | keyValue => exact findSome_lines _ content
  | auto =>
    dsimp only
    rw [findSome_lines, findSome_lines]
    show _ = (splitInclusive content).findSome? (lineValue (keyValueValue cs name))
    cases hkv : (splitInclusive content).findSome? (lineValue (keyValueValue cs name)) with
    | some v => rfl
    | none =>
      apply List.findSome?_eq_none_iff.mpr
      intro line hline
      exact hspace line (List.findSome?_eq_none_iff.mp hkv line hline)

/-- A live line of the directive, to the writer and the readers alike. -/
theorem isLive_iff (hne : name ≠ []) :
    isLive cs name line = true ↔ isComment (trim line) = false ∧ keyMatches cs (keyOf (trim line)) name = true := by
  unfold isLive
  cases hc : isComment (trim line) with
  | true =>
    unfold lineKey
    dsimp only
    rw [hc]
    split
    · next h =>
      split at h
      · cases h
      · split at h <;> cases h
    · simp
  | false =>
    rw [lineKey_live hc, splitDirective_fst]
    by_cases hk : keyOf (trim line) = []
    · rw [if_pos hk, hk, not_keyMatches_nil hne]
      simp
    · rw [if_neg hk]
      simp

theorem trim_ne_nil_of_isLive (hne : name ≠ []) (h : isLive cs name line = true) : trim line ≠ [] := by
  intro he
  have hm := ((isLive_iff hne).mp h).2
  rw [he] at hm
  exact absurd (not_keyMatches_nil hne ▸ hm) (by simp)

theorem lineValue_of_isLive (hn : DirectiveName name) (h : isLive cs name line = true) (format : ConfigFormat) :
    lineValue (directiveValue format cs name) line = directiveValue format cs name (trim line) := by
  unfold lineValue
  dsimp only
  rw [if_neg]
  rintro (he | hc)
  · exact trim_ne_nil_of_isLive hn.ne_nil h he
  · rw [((isLive_iff hn.ne_nil).mp h).1] at hc
    cases hc

/-- A line that is not the directive's gives it nothing. -/
theorem lineValue_of_not_isLive (hn : DirectiveName name) (h : isLive cs name line = false) (format : ConfigFormat) :
    lineValue (directiveValue format cs name) line = none := by
  unfold lineValue
  dsimp only
  split
  · rfl
  · next hlive =>
    have hm : keyMatches cs (keyOf (trim line)) name = false := by
      by_contra hm
      have hc : isComment (trim line) = false := by
        cases hc : isComment (trim line) with
        | true => exact absurd (.inr hc) hlive
        | false => rfl
      have := (isLive_iff hn.ne_nil).mpr ⟨hc, Bool.not_eq_false _ ▸ hm⟩
      rw [h] at this
      cases this
    cases format with
    | spaceSeparated =>
      show spaceSeparatedValue cs name (trim line) = none
      rw [spaceSeparatedValue_eq, hm, if_neg (by simp)]
    | keyValue =>
      show keyValueValue cs name (trim line) = none
      rw [keyValueValue_eq hn, hm, if_neg (by simp)]
    | auto =>
      show keyValueValue cs name (trim line) = none
      rw [keyValueValue_eq hn, hm, if_neg (by simp)]

/-! ## What is set -/

theorem words_ne_nil {s : Chars} {c : Char} (hc : c ∈ s) (hw : isWhitespace c = false) : words s ≠ [] := by
  induction s with
  | nil => cases hc
  | cons d s ih =>
    by_cases hd : isWhitespace d = true
    · rw [words_blank hd]
      apply ih
      rcases List.mem_cons.mp hc with rfl | hc
      · rw [hw] at hd
        cases hd
      · exact hc
    · rw [words_cons (by simpa using hd)]
      simp

/-- What follows the key of a trimmed line is a value, or nothing. -/
theorem behindValue_isSome (line : Chars) : (behindValue (behindKey (trim line))).isSome ↔ behindKey (trim line) ≠ [] := by
  unfold behindValue
  constructor
  · intro h he
    rw [he] at h
    simp [trimStart] at h
  · intro hne
    split
    · rfl
    · -- The last character of a trimmed line is no blank, and it stands behind the key.
      obtain ⟨c, hc⟩ : ∃ c, (behindKey (trim line)).getLast? = some c := ⟨_, List.getLast?_eq_some_getLast hne⟩
      have hlast : (trim line).getLast? = some c := by
        rw [← keyOf_append_behindKey (trim line), List.getLast?_append, hc]
        rfl
      have hw : isWhitespace c = false := getLast_trimEnd hlast
      have hwords := words_ne_nil (List.mem_of_getLast? hc) hw
      cases hw : words (behindKey (trim line)) with
      | nil => exact absurd hw hwords
      | cons w ws => rfl

/-- A directive is set by a live line that has its key and more than it. -/
theorem parse_isSome_iff (hn : DirectiveName name) (content : Chars) :
    (parseConfigValue content name .auto cs).isSome ↔
      ∃ line ∈ splitInclusive content, isLive cs name line = true ∧ behindKey (trim line) ≠ [] := by
  rw [parse_eq hn, List.findSome?_isSome_iff]
  constructor
  · rintro ⟨line, hline, hsome⟩
    have hlive : isLive cs name line = true := by
      by_contra h
      rw [lineValue_of_not_isLive hn (by simpa using h)] at hsome
      cases hsome
    refine ⟨line, hline, hlive, ?_⟩
    rw [lineValue_of_isLive hn hlive] at hsome
    change (keyValueValue cs name (trim line)).isSome at hsome
    rw [keyValueValue_eq hn, if_pos ((isLive_iff hn.ne_nil).mp hlive).2] at hsome
    exact (behindValue_isSome line).mp hsome
  · rintro ⟨line, hline, hlive, hmore⟩
    refine ⟨line, hline, ?_⟩
    rw [lineValue_of_isLive hn hlive]
    show (keyValueValue cs name (trim line)).isSome
    rw [keyValueValue_eq hn, if_pos ((isLive_iff hn.ne_nil).mp hlive).2]
    exact (behindValue_isSome line).mpr hmore

end

end LinuxHardener.Common
