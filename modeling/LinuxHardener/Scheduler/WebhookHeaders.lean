import LinuxHardener.Lib.ByteText

/-
  The headers of a webhook request (`notification/webhook.rs`).

  An environment says what a variable is set to, where it is set to a text. The string that the
  loop edits is cut by bytes; a cut inside a character is a panic, and `none` here.

  Correspondence (Rust ↔ Lean):
    `ENV_ALLOWLIST`     ↔ `envAllowlist`
    `expand_env_vars`   ↔ `expandEnvVars`, its loop `expandFrom`
    `validate_header`   ↔ `validateHeader`

  What is proved:
    1. `expandFrom_append` — from its index on, the loop substitutes what it has not passed.
    2. `expandEnvVars_eq` — it ends with the text substituted once.
    3. `headers_expand_once` — and with nothing of any other variable, and no line break that
       the validation lets through.
-/
namespace LinuxHardener.Scheduler.Webhook

open LineText ByteText

abbrev Environment : Type := Chars → Option Chars

def envAllowlist : List Chars := ["HARDENER_WEBHOOK_".toList, "HARDENER_AUTH_".toList]

def isAllowed (name : Chars) : Bool := envAllowlist.any fun start => start.isPrefixOf name

/-- What stands for a variable: nothing where it is blocked or not set. -/
def varValue (env : Environment) (name : Chars) : Chars := if isAllowed name then (env name).getD [] else []

/-- The loop, from a byte of the string on. -/
def expandFrom (env : Environment) (result : Chars) (start : Nat) : Option Chars :=
  match sliceFrom result start with
  | none => none
  | some tail =>
    match find "$\x7b".toList tail with
    | none => some result
    | some offset =>
      let varStart := start + offset
      match sliceFrom result varStart with
      | none => none
      | some opened =>
        match find "\x7d".toList opened with
        | none => some result
        | some length =>
          let varEnd := varStart + length
          match slice result (varStart + 2) varEnd with
          | none => none
          | some varName =>
            match _hr : replaceRange result varStart (varEnd + 1) (varValue env varName) with
            | none => none
            | some result' => expandFrom env result' (varStart + len (varValue env varName))
termination_by len result - start
decreasing_by
  have hlen := len_replaceRange _hr
  omega

def expandEnvVars (env : Environment) (value : Chars) : Option Chars := expandFrom env value 0

def validateHeader (key value : Chars) : Except Chars Unit :=
  if !key.all (fun c => c.isAlphanum || c == '-') then .error ("invalid header key: ".toList ++ key)
  else if value.any fun c => c == '\r' || c == '\n' || c == '\x00' then
    .error ("header value for '".toList ++ key ++ "' contains control characters".toList)
  else .ok ()

/-! ## One substitution -/

/-- A text cut at its first `${NAME}`: what stands before it, the name, and what stands behind it. -/
def firstVariable (s : Chars) : Option (Chars × Chars × Chars) :=
  (splitOnceAt "$\x7b".toList s).bind fun cut => (splitOnce '}' cut.2).map fun named => (cut.1, named.1, named.2)

theorem firstVariable_eq_some {s before name behind : Chars} (h : firstVariable s = some (before, name, behind)) :
    s = before ++ ("$\x7b".toList ++ name ++ ['}']) ++ behind := by
  obtain ⟨⟨head, opened⟩, hcut, hmap⟩ := Option.bind_eq_some_iff.mp h
  obtain ⟨⟨name', behind'⟩, hname, heq⟩ := Option.map_eq_some_iff.mp hmap
  cases heq
  obtain rfl := splitOnceAt_some hcut
  obtain ⟨rfl, -⟩ := splitOnce_some hname
  simp

/-- Each `${NAME}` replaced, from left to right, and nothing of a replacement read again. -/
def substitute (value : Chars → Chars) (s : Chars) : Chars :=
  match _h : firstVariable s with
  | none => s
  | some (before, name, behind) => before ++ value name ++ substitute value behind
termination_by s.length
decreasing_by
  have hs := congrArg List.length (firstVariable_eq_some _h)
  simp at hs
  omega

theorem substitute_none {value : Chars → Chars} {s : Chars} (h : firstVariable s = none) : substitute value s = s := by
  rw [substitute]
  split
  · rfl
  · next h' =>
    rw [h] at h'
    cases h'

theorem substitute_some {value : Chars → Chars} {s before name behind : Chars} (h : firstVariable s = some (before, name, behind)) :
    substitute value s = before ++ value name ++ substitute value behind := by
  rw [substitute]
  split
  · next h' =>
    rw [h] at h'
    cases h'
  · next h' =>
    rw [h] at h'
    cases h'
    rfl

/-! ## The loop -/

/-- Where the loop looks for the end of a variable. -/
theorem find_end (opened : Chars) :
    find "\x7d".toList ("$\x7b".toList ++ opened) = (splitOnce '}' opened).map fun cut => 2 + len cut.1 := by
  have hskip : splitOnce '}' ("$\x7b".toList ++ opened) = (splitOnce '}' opened).map fun cut => ("$\x7b".toList ++ cut.1, cut.2) := by
    change splitOnce '}' ('$' :: '{' :: opened) = _
    rw [splitOnce, if_neg (by decide), splitOnce, if_neg (by decide), Option.map_map]
    rfl
  have hsize : len "$\x7b".toList = 2 := by decide
  rw [find_eq]
  change (splitOnceAt ['}'] _).map _ = _
  rw [splitOnceAt_singleton, hskip, Option.map_map]
  exact congrArg (Option.map · _) (funext fun cut => by rw [Function.comp_apply, len_append, hsize])

/-- From its index on, the loop substitutes what it has not passed; what it has passed stays. -/
theorem expandFrom_append (env : Environment) (passed s : Chars) :
    expandFrom env (passed ++ s) (len passed) = some (passed ++ substitute (varValue env) s) := by
  induction hn : s.length using Nat.strong_induction_on generalizing passed s with
  | _ n ih =>
    subst hn
    rw [expandFrom, sliceFrom_append]
    dsimp only
    rw [find_eq]
    cases hcut : splitOnceAt "$\x7b".toList s with
    | none =>
      have hfirst : firstVariable s = none := by rw [firstVariable, hcut]; rfl
      rw [substitute_none hfirst]
      rfl
    | some cut =>
      obtain ⟨before, opened⟩ := cut
      have hs := splitOnceAt_some hcut
      have hvar : sliceFrom (passed ++ s) (len passed + len before) = some ("$\x7b".toList ++ opened) := by
        rw [hs, List.append_assoc before, ← List.append_assoc passed, ← len_append]
        exact sliceFrom_append ..
      rw [Option.map_some]
      dsimp only
      rw [hvar]
      dsimp only
      rw [find_end]
      cases hend : splitOnce '}' opened with
      | none =>
        have hfirst : firstVariable s = none := by rw [firstVariable, hcut, Option.bind_some, hend]; rfl
        rw [substitute_none hfirst]
        rfl
      | some named =>
        obtain ⟨name, behind⟩ := named
        have hfirst : firstVariable s = some (before, name, behind) := by rw [firstVariable, hcut, Option.bind_some, hend]; rfl
        have hwhole := firstVariable_eq_some hfirst
        have hlength := congrArg List.length hwhole
        have hname : slice (passed ++ s) (len passed + len before + 2) (len passed + len before + (2 + len name)) = some name := by
          have hslice := slice_append (passed ++ before ++ "$\x7b".toList) name (['}'] ++ behind)
          have hsize : len "$\x7b".toList = 2 := by decide
          rw [len_append, len_append, hsize, Nat.add_assoc _ 2] at hslice
          rw [hwhole, ← hslice]
          simp only [List.append_assoc]
        have hreplace : replaceRange (passed ++ s) (len passed + len before) (len passed + len before + (2 + len name) + 1)
            (varValue env name) = some (passed ++ before ++ varValue env name ++ behind) := by
          have hrange := replaceRange_append (passed ++ before) ("$\x7b".toList ++ name ++ ['}']) behind (varValue env name)
          have hsize : len ("$\x7b".toList ++ name ++ ['}']) = 2 + len name + 1 := by
            rw [len_append, len_append]
            rfl
          rw [hsize, len_append, ← Nat.add_assoc] at hrange
          rw [hwhole, ← hrange]
          simp only [List.append_assoc]
        dsimp only [Option.map_some]
        rw [hname]
        dsimp only
        split
        · next h =>
          rw [hreplace] at h
          cases h
        · next h =>
          rw [hreplace] at h
          cases h
          rw [substitute_some hfirst, ← len_append, ← len_append, ih behind.length (by simp at hlength; omega) _ behind rfl]
          simp only [List.append_assoc]

/-- The loop ends, and with the text substituted once. -/
theorem expandEnvVars_eq (env : Environment) (value : Chars) : expandEnvVars env value = some (substitute (varValue env) value) :=
  expandFrom_append env [] value

/-! ## Other variables -/

theorem varValue_congr {env env' : Environment} (h : ∀ name, isAllowed name = true → env name = env' name) : varValue env = varValue env' := by
  funext name
  unfold varValue
  split
  · next hallowed => rw [h name hallowed]
  · rfl

theorem validateHeader_ok {key value : Chars} (h : validateHeader key value = .ok ()) : '\r' ∉ value ∧ '\n' ∉ value ∧ '\x00' ∉ value := by
  unfold validateHeader at h
  split at h
  · cases h
  · split at h
    · cases h
    · next hno =>
      rw [List.any_eq_true] at hno
      refine ⟨fun hc => hno ⟨_, hc, by decide⟩, fun hc => hno ⟨_, hc, by decide⟩, fun hc => hno ⟨_, hc, by decide⟩⟩

/-- Header expansion substitutes once, and nothing of any other variable reaches the header. -/
theorem headers_expand_once :
    (∀ env value, expandEnvVars env value = some (substitute (varValue env) value)) ∧
      (∀ env env' value, (∀ name, isAllowed name = true → env name = env' name) → expandEnvVars env value = expandEnvVars env' value) ∧
      (∀ env value expanded key, expandEnvVars env value = some expanded → validateHeader key expanded = .ok () →
        '\r' ∉ expanded ∧ '\n' ∉ expanded ∧ '\x00' ∉ expanded) := by
  refine ⟨expandEnvVars_eq, fun env env' value h => ?_, fun env value expanded key _ hok => validateHeader_ok hok⟩
  rw [expandEnvVars_eq, expandEnvVars_eq, varValue_congr h]

def pathOnly : Environment := fun name => if name = "PATH".toList then some "/usr/bin" else none

theorem headers_expand_once_path :
    expandEnvVars pathOnly "$\x7bPATH\x7d" = expandEnvVars (fun _ => none) "$\x7bPATH\x7d" ∧ '\n' ∉ "Bearer".toList := by
  have hplain : expandEnvVars pathOnly "Bearer" = some "Bearer".toList := by
    rw [headers_expand_once.1]
    exact congrArg some (substitute_none rfl)
  refine ⟨headers_expand_once.2.1 _ _ _ fun name hallowed => ?_, (headers_expand_once.2.2 pathOnly "Bearer" "Bearer" "Authorization" hplain rfl).2.1⟩
  refine if_neg ?_
  rintro rfl
  revert hallowed
  decide

end LinuxHardener.Scheduler.Webhook
