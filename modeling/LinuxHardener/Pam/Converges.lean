import LinuxHardener.Pam.Host
import LinuxHardener.Plugins.Clamp

/-
  What an apply of the PAM plugin makes of the values the directives have.

  A file that is written holds every directive of it that is not excepted, at its target
  (`Holds`), and is read as before for everything else; a file that is not written stays.

  What is proved:
    1. `foldl_editBuffer` — the invariant of the loop over a file held in memory.
    2. `mem_planned`, `observed_storeAll` — what a file that is written holds, and what is read of
       a directive behind any of the writes.
    3. `only_tightened`, `rest_untouched` — whatever goes wrong: no value gets weaker, and
       nothing else is touched.
    4. `left_in_breach_iff`, `nothing_to_rewrite` — where nothing goes wrong: which values are still
       in breach, and that a second run finds nothing to write.
-/
namespace LinuxHardener.Pam

open LineText Common Plugins Dialogue
open Text (isWhitespace)

/-! ## The table -/

/-- What the table promises of a directive. -/
structure PamDirective.Sound (d : PamDirective) : Prop where
  name : DirectiveName d.name
  apart : eqIgnoreCase d.name matchKeyword = false
  baseline : ∃ b, d.compare.place d.secureValue = some b
  unranked : ∀ order, d.compare ≠ .ranked order

/-- What the table comes to, read through once. -/
theorem table_facts :
    (∀ d ∈ pamDirectives, (d.name.isEmpty = false ∧ d.name.any endsKey = false ∧ isComment d.name = false) ∧
      eqIgnoreCase d.name matchKeyword = false ∧ (d.compare.place d.secureValue).isSome = true ∧
      (d.compare = .atLeast ∨ d.compare = .atMost ∨ d.compare = .nonZeroAtMost)) ∧
    (∀ d ∈ pamDirectives, d.configFile.confPath.isSome = true ∧ (∀ conf ∈ d.configFile.confPath, conf ∈ confFiles) ∧
      (d.configFile.confPath = some pwqualityConf → d.configFile = .pwQuality) ∧
      (d.configFile.confPath = some loginDefs → d.configFile = .loginDefs)) ∧
    (∀ d ∈ pamDirectives, ∀ d' ∈ pamDirectives, (d'.name = d.name → d' = d) ∧
      (d.configFile.confPath = d'.configFile.confPath → d.configFile = d'.configFile) ∧
      (d.configFile = d'.configFile → own d ≠ [] → d' = d)) ∧
    (pamDirectives.Pairwise fun d d' => d.name ≠ d'.name) ∧
    (pamDirectives.flatMap own ++ [pwqualityConf.toList] ++ [loginDefs.toList]).Nodup ∧
    ∀ conf ∈ confFiles, ∀ conf' ∈ confFiles, (conf'.toList ∈ layers conf.toList → conf'.toList = conf.toList) ∧
      ∀ file ∈ stackFiles conf, conf'.toList ∉ layers file.toList := by
  decide +kernel

theorem sound_directive : ∀ d ∈ pamDirectives, d.Sound := by
  intro d hd
  obtain ⟨⟨hne, hend, hlive⟩, hapart, hbaseline, hcompare⟩ := table_facts.1 d hd
  refine ⟨⟨by simpa using hne, fun c hc => Bool.eq_false_iff.mpr (List.any_eq_false.mp hend c hc), hlive⟩, hapart,
    Option.isSome_iff_exists.mp hbaseline, fun order hranked => ?_⟩
  rcases hcompare with h | h | h <;> rw [h] at hranked <;> cases hranked

theorem names_apart : pamDirectives.Pairwise fun d d' => d.name ≠ d'.name := table_facts.2.2.2.1

theorem directive_of_name : ∀ d ∈ pamDirectives, ∀ d' ∈ pamDirectives, d'.name = d.name → d' = d :=
  fun d hd d' hd' => (table_facts.2.2.1 d hd d' hd').1

theorem file_of_confPath : ∀ d ∈ pamDirectives, ∀ d' ∈ pamDirectives, d.configFile.confPath = d'.configFile.confPath →
    d.configFile = d'.configFile :=
  fun d hd d' hd' => (table_facts.2.2.1 d hd d' hd').2.1

/-- A file of `/etc/security` has one directive. -/
theorem sole_securityConf : ∀ d ∈ pamDirectives, ∀ d' ∈ pamDirectives, ∀ path, d.configFile = .securityConf path →
    d'.configFile = .securityConf path → d' = d := by
  intro d hd d' hd' path hfile hfile'
  exact (table_facts.2.2.1 d hd d' hd').2.2 (hfile.trans hfile'.symm) (by simp [own, hfile])

theorem confFiles_of_confPath : ∀ d ∈ pamDirectives, ∀ conf ∈ d.configFile.confPath, conf ∈ confFiles :=
  fun d hd => (table_facts.2.1 d hd).2.1

/-- Neither a file of ours nor its counterpart among the vendor's is a file of another round, or stands in a stack. -/
theorem confFiles_apart : ∀ conf ∈ confFiles, ∀ conf' ∈ confFiles,
    (conf'.toList ∈ layers conf.toList → conf'.toList = conf.toList) ∧ ∀ file ∈ stackFiles conf, conf'.toList ∉ layers file.toList :=
  table_facts.2.2.2.2.2

/-! ## Targets -/

theorem singleToken_signed (n : Int) : SingleToken (signed n) := by
  have hdigit : ∀ c : Char, c.isDigit = true → isWhitespace c = false ∧ c ≠ '=' := by
    intro c hc
    unfold Char.isDigit at hc
    simp only [Bool.and_eq_true, decide_eq_true_eq, ge_iff_le, UInt32.le_iff_toNat_le] at hc
    refine ⟨?_, ?_⟩
    · unfold isWhitespace Char.toNat
      simp at hc ⊢
      omega
    · rintro rfl
      simp at hc
  refine ⟨signed_ne_nil n, fun c hc => ?_, fun hhead => ?_⟩
  · rcases mem_signed hc with rfl | hd
    · decide
    · exact (hdigit c hd).1
  · rcases mem_signed (List.mem_of_mem_head? hhead) with heq | hd
    · cases heq
    · exact (hdigit _ hd).2 rfl

section

variable {d : PamDirective} {config : PluginConfig}

theorem PamDirective.Sound.faithful (hd : d.Sound) : d.compare.Faithful := fun order hranked => absurd hranked (hd.unranked order)

/-- What a directive's comparison spells is a number. -/
theorem PamDirective.Sound.token (hd : d.Sound) {value : Chars} {p : Int × Chars} (h : d.compare.place value = some p) :
    SingleToken p.2 := by
  cases hcompare : d.compare with
  | ranked order => exact absurd hcompare (hd.unranked order)
  | _ =>
    rw [hcompare] at h
    obtain ⟨n, -, rfl⟩ := Option.map_eq_some_iff.mp h
    exact singleToken_signed n

theorem PamDirective.Sound.place_clamp (hd : d.Sound) (candidate : Option Chars) {baseline : Chars} {b : Int × Chars}
    (hb : d.compare.place baseline = some b) :
    ∃ t, d.compare.place (d.compare.clampTarget baseline candidate) = some t ∧ t.2 = d.compare.clampTarget baseline candidate ∧
      b.1 ≤ t.1 ∧ (∀ c, candidate.bind d.compare.place = some c → c.1 ≤ t.1) ∧
        SingleToken (d.compare.clampTarget baseline candidate) := by
  obtain ⟨t, ht, hspelled, hle, hcandidate⟩ := @Strictness.place_clampTarget _ _ candidate hd.faithful _ hb
  exact ⟨t, ht, hspelled, hle, hcandidate, hspelled ▸ hd.token ht⟩

theorem PamDirective.Sound.place_baseline (hd : d.Sound) (config : PluginConfig) :
    ∃ b, d.compare.place (clampedBaseline d config) = some b ∧ b.2 = clampedBaseline d config ∧
      d.compare.violatedBy d.secureValue (some (clampedBaseline d config)) = false := by
  obtain ⟨b, hb⟩ := hd.baseline
  obtain ⟨t, ht, hspelled, hle, -⟩ := hd.place_clamp (some (config.resolveStr d.name d.secureValue)) hb
  exact ⟨t, ht, hspelled, Strictness.violatedBy_eq_false hb ht hle⟩

/-- What is in breach of a target does not move it. -/
theorem clamp_violated {s : Strictness} {target current : Chars} {t : Int × Chars} (ht : s.place target = some t)
    (hspelled : t.2 = target) (h : s.violatedBy target (some current) = true) : s.clampTarget target (some current) = target := by
  rcases @Strictness.clampTarget_cases _ _ (some current) _ ht with ⟨heq, -⟩ | ⟨c, hc, hlt, -⟩
  · rw [heq, hspelled]
  · exfalso
    have hc' : s.place current = some c := hc
    rw [Strictness.violatedBy_eq_false ht hc' (Int.le_of_lt hlt)] at h
    cases h

/-- The target a round means its directive to have, if it is not excepted. -/
theorem meant_eq {round : PamDirective × ThresholdRead} {target : Chars} (h : meant config round = some target) :
    config.matchingException round.1.name round.2.valueOrNotSet = none ∧
      target = round.1.compare.clampTarget (clampedBaseline round.1 config) (some round.2.valueOrNotSet) := by
  unfold meant at h
  split at h
  · cases h
  · next hnone => exact ⟨hnone, (Option.some.inj h).symm⟩

/-- A round without a target is of an excepted directive. -/
theorem meant_none {round : PamDirective × ThresholdRead} (h : meant config round = none) :
    (config.matchingException round.1.name round.2.valueOrNotSet).isSome = true := by
  unfold meant at h
  split at h
  · next hsome =>
    rw [hsome]
    rfl
  · cases h

/-- A target is read back, and neither the secure value, the baseline nor the value before is stricter. -/
structure Tightens (d : PamDirective) (config : PluginConfig) (before : ThresholdRead) (target : Chars) : Prop where
  token : SingleToken target
  secure : d.compare.violatedBy d.secureValue (some target) = false
  baseline : d.compare.violatedBy (clampedBaseline d config) (some target) = false
  before : ∀ value, before = .value value → (d.compare.place value).isSome = true → d.compare.violatedBy value (some target) = false

theorem tightens_meant (hd : d.Sound) {before : ThresholdRead} {target : Chars} (h : meant config (d, before) = some target) :
    Tightens d config before target := by
  obtain ⟨-, htarget⟩ := meant_eq h
  subst htarget
  obtain ⟨s, hs⟩ := hd.baseline
  obtain ⟨b, hb, -, -⟩ := hd.place_baseline config
  obtain ⟨s', hs', -, hle', -⟩ := hd.place_clamp (some (config.resolveStr d.name d.secureValue)) hs
  obtain ⟨t, ht, -, hle, hcandidate, htoken⟩ := hd.place_clamp (some before.valueOrNotSet) hb
  have hsb : s.1 ≤ b.1 := by
    have heq : some b = some s' := hb.symm.trans hs'
    rw [Option.some.inj heq]
    exact hle'
  refine ⟨htoken, Strictness.violatedBy_eq_false hs ht (Int.le_trans hsb hle), Strictness.violatedBy_eq_false hb ht hle, ?_⟩
  rintro value rfl hplaced
  obtain ⟨p, hp⟩ := Option.isSome_iff_exists.mp hplaced
  exact Strictness.violatedBy_eq_false hp ht (hcandidate p hp)

/-- A directive at its target is not in breach. -/
theorem met_of_meant (hd : d.Sound) {before found : ThresholdRead} {target : Chars} (h : meant config (d, before) = some target)
    (hfound : found = .value target) : d.compare.violatedBy (clampedBaseline d config) (some found.valueOrNotSet) = false := by
  subst hfound
  exact (tightens_meant hd h).baseline

/-- A round behind one that reached its target means the directive to stay. -/
theorem meant_again (hd : d.Sound) {before : ThresholdRead} {target again : Chars} (h : meant config (d, before) = some target)
    (hagain : meant config (d, .value target) = some again) : again = target := by
  obtain ⟨-, htarget⟩ := meant_eq h
  obtain ⟨-, hagain⟩ := meant_eq hagain
  obtain ⟨b, hb, -, -⟩ := hd.place_baseline config
  rw [hagain, htarget]
  exact Strictness.clampTarget_idem hd.faithful hb

end

/-! ## A file held in memory -/

section

variable {config : PluginConfig} {file : PamConfigFile} {buffer before after : Buffer} {round : PamDirective × ThresholdRead}
  {rounds : List (PamDirective × ThresholdRead)} {target : Chars}

/-- The round edits the file. -/
def Edits (config : PluginConfig) (file : PamConfigFile) (round : PamDirective × ThresholdRead) : Prop :=
  round.1.configFile = file ∧ (meant config round).isSome = true

theorem editBuffer_idle (h : ¬ Edits config file round) : editBuffer config file buffer round = buffer := by
  unfold editBuffer
  split
  · next hfile =>
    cases hmeant : meant config round with
    | none => rfl
    | some target => exact absurd ⟨hfile, by rw [hmeant]; rfl⟩ h
  · rfl

/-- An edit sets the directive, or it is held already. -/
theorem editBuffer_edits (buffer : Buffer) (hfile : round.1.configFile = file) (hsound : round.1.Sound)
    (htarget : SingleToken target) (hmeant : meant config round = some target) :
    (editBuffer config file buffer round = buffer ∨
      editBuffer config file buffer round =
        ⟨setConfigDirective buffer.content round.1.name target file.configFormat true .remove, true⟩) ∧
      Holds true file.configFormat (editBuffer config file buffer round).content round.1.name target := by
  unfold editBuffer applyExactDirective
  rw [if_pos hfile, hmeant]
  dsimp only
  split
  · next hsame => exact ⟨.inl rfl, holds_of_linesWithText_set hsound.name htarget hsame.2⟩
  · exact ⟨.inr rfl, holds_set hsound.name hsound.apart htarget⟩

/-- What is held is not edited. -/
theorem editBuffer_of_holds (hsound : round.1.Sound) (hend : buffer.content.getLast? ≠ some '\r')
    (h : ∀ target, meant config round = some target →
      SingleToken target ∧ Holds true file.configFormat buffer.content round.1.name target) :
    editBuffer config file buffer round = buffer := by
  unfold editBuffer
  split
  · cases hmeant : meant config round with
    | none => rfl
    | some target =>
      obtain ⟨htoken, hheld⟩ := h target hmeant
      unfold applyExactDirective
      dsimp only
      rw [if_pos ⟨parse_of_holds hsound.name htoken hheld .auto, linesWithText_set_of_holds hsound.name htoken hend hheld⟩]
  · rfl

/-- What rounds make of a file, their directives being apart. -/
structure Edited (config : PluginConfig) (file : PamConfigFile) (rounds : List (PamDirective × ThresholdRead))
    (before after : Buffer) : Prop where
  held : ∀ round ∈ rounds, round.1.configFile = file → ∀ target, meant config round = some target →
    Holds true file.configFormat after.content round.1.name target
  kept : ∀ other value, DirectiveName other → SingleToken value →
    (∀ round ∈ rounds, Edits config file round → keyMatches true round.1.name other = false) →
      Holds true file.configFormat before.content other value → Holds true file.configFormat after.content other value
  read : ∀ other, DirectiveName other → ∀ readFormat cs,
    (∀ round ∈ rounds, Edits config file round → keyMatches cs round.1.name other = false) →
      parseConfigValue after.content other readFormat cs = parseConfigValue before.content other readFormat cs
  closed : after = before ∨ (after.changed = true ∧ after.content.getLast? = some '\n')

theorem getLast_setConfigDirective (content name value : Chars) (format : ConfigFormat) (cs : Bool) (duplicates : Duplicates) :
    (setConfigDirective content name value format cs duplicates).getLast? = some '\n' := by
  obtain ⟨ls, -, heq⟩ := setConfigDirective_edits content name value format cs duplicates
  rw [heq]
  unfold closeLine
  split
  · assumption
  · simp

theorem edited_once (file : PamConfigFile) (before : Buffer) (hsound : round.1.Sound)
    (htoken : ∀ target, meant config round = some target → SingleToken target) :
    Edited config file [round] before (editBuffer config file before round) := by
  by_cases hedits : Edits config file round
  · obtain ⟨hfile, hsome⟩ := hedits
    obtain ⟨target, hmeant⟩ := Option.isSome_iff_exists.mp hsome
    have htarget := htoken target hmeant
    have hnewline := newline_not_mem_token htarget
    obtain ⟨hcases, hheld⟩ := editBuffer_edits before hfile hsound htarget hmeant
    refine ⟨fun r hr _ target' hmeant' => ?_, fun other value hother hvalue hapart h => ?_, fun other hother readFormat cs hapart => ?_, ?_⟩
    · obtain rfl := List.mem_singleton.mp hr
      rw [hmeant] at hmeant'
      exact Option.some.inj hmeant' ▸ hheld
    · have hdiffer := hapart round (List.mem_singleton_self _) ⟨hfile, hsome⟩
      rcases hcases with heq | heq <;> rw [heq]
      · exact h
      · dsimp only
        exact @holds_set_other true true _ _ _ _ _ _ hsound.name hsound.apart hnewline hother hdiffer _ _ hvalue h
    · have hdiffer := hapart round (List.mem_singleton_self _) ⟨hfile, hsome⟩
      rcases hcases with heq | heq <;> rw [heq]
      dsimp only
      exact @parse_set_other true cs _ _ _ _ _ _ hsound.name hnewline hother hdiffer readFormat
    · rcases hcases with heq | heq <;> rw [heq]
      · exact .inl rfl
      · exact .inr ⟨rfl, getLast_setConfigDirective before.content round.1.name target file.configFormat true .remove⟩
  · rw [editBuffer_idle hedits]
    refine ⟨fun r hr hfile target hmeant => ?_, fun _ _ _ _ _ h => h, fun _ _ _ _ _ => rfl, .inl rfl⟩
    obtain rfl := List.mem_singleton.mp hr
    exact absurd ⟨hfile, by rw [hmeant]; rfl⟩ hedits

theorem foldl_editBuffer (hsound : ∀ r ∈ rounds, r.1.Sound)
    (htoken : ∀ r ∈ rounds, ∀ target, meant config r = some target → SingleToken target)
    (hapart : rounds.Pairwise fun r r' => r.1.name ≠ r'.1.name) :
    Edited config file rounds before (rounds.foldl (editBuffer config file) before) := by
  induction rounds generalizing before with
  | nil => exact ⟨fun _ hr => (by cases hr), fun _ _ _ _ _ h => h, fun _ _ _ _ _ => rfl, .inl rfl⟩
  | cons r rounds ih =>
    obtain ⟨hfirst, hrest⟩ := List.pairwise_cons.mp hapart
    have hr := hsound r List.mem_cons_self
    have hone := edited_once file before hr (htoken r List.mem_cons_self)
    have hothers := @ih (editBuffer config file before r) (fun r' hr' => hsound r' (List.mem_cons_of_mem _ hr'))
      (fun r' hr' => htoken r' (List.mem_cons_of_mem _ hr')) hrest
    rw [List.foldl_cons]
    refine ⟨fun r' hr' hfile target hmeant => ?_, fun other value hother hvalue hdiffer h => ?_,
      fun other hother readFormat cs hdiffer => ?_, ?_⟩
    · rcases List.mem_cons.mp hr' with rfl | hr'
      · -- The later rounds are about other directives.
        have hheld := hone.held r' (List.mem_singleton_self _) hfile target hmeant
        refine hothers.kept r'.1.name target hr.name (htoken r' List.mem_cons_self target hmeant) (fun later hlater _ => ?_) hheld
        simpa [keyMatches] using (hfirst later hlater).symm
      · exact hothers.held r' hr' hfile target hmeant
    · refine hothers.kept other value hother hvalue (fun later hlater => hdiffer later (List.mem_cons_of_mem _ hlater)) ?_
      exact hone.kept other value hother hvalue (List.forall_mem_singleton.mpr (hdiffer r List.mem_cons_self)) h
    · rw [hothers.read other hother readFormat cs fun later hlater => hdiffer later (List.mem_cons_of_mem _ hlater)]
      exact hone.read other hother readFormat cs (List.forall_mem_singleton.mpr (hdiffer r List.mem_cons_self))
    · rcases hothers.closed with heq | hclosed
      · rw [heq]
        exact hone.closed
      · exact .inr hclosed

/-- Where every directive is held, nothing is edited. -/
theorem foldl_editBuffer_of_holds (hsound : ∀ r ∈ rounds, r.1.Sound) (hend : buffer.content.getLast? ≠ some '\r')
    (h : ∀ r ∈ rounds, r.1.configFile = file → ∀ target, meant config r = some target →
      SingleToken target ∧ Holds true file.configFormat buffer.content r.1.name target) :
    rounds.foldl (editBuffer config file) buffer = buffer := by
  induction rounds with
  | nil => rfl
  | cons r rounds ih =>
    have hsame : editBuffer config file buffer r = buffer := by
      by_cases hfile : r.1.configFile = file
      · exact editBuffer_of_holds (hsound r List.mem_cons_self) hend (h r List.mem_cons_self hfile)
      · exact editBuffer_idle fun hedits => hfile hedits.1
    rw [List.foldl_cons, hsame]
    exact ih (fun r' hr' => hsound r' (List.mem_cons_of_mem _ hr')) fun r' hr' => h r' (List.mem_cons_of_mem _ hr')

end

/-! ## What is read of a directive -/

/-- The argument that a stack sets for a directive of a file under `/etc/security`. -/
def inlineOf (denied : Chars → Chars → Bool) (h : PamHost) (d : PamDirective) : InlineRead :=
  match d.configFile with
  | .securityConf path => answered h.respond (readPamdInline denied path d.name)
  | _ => .notSet

/-- The format a directive's file is read in. -/
def PamDirective.readFormat (d : PamDirective) : ConfigFormat :=
  match d.configFile with
  | .securityConf _ => .keyValue
  | _ => .auto

section

variable {denied : Chars → Chars → Bool} {clock : Chars → Except Chars Nat} {config : PluginConfig} {h : PamHost} {d : PamDirective}
  {conf : String} {content : Chars} {ws : List (Chars × Chars)}

theorem observed_eq (hconf : d.configFile.confPath = some conf) :
    observed denied h d =
      match inlineOf denied h d with
      | .value text => .value text
      | .unreadable stack permissionDenied => .unreadable stack.toList permissionDenied
      | .notSet => thresholdOf conf.toList d.name d.readFormat (h.conf denied conf) := by
  unfold observed observedPamValue inlineOf PamDirective.readFormat
  cases hfile : d.configFile with
  | pwQuality =>
    rw [hfile] at hconf
    cases hconf
    rfl
  | loginDefs =>
    rw [hfile] at hconf
    cases hconf
    rfl
  | pamAuth =>
    rw [hfile] at hconf
    cases hconf
  | securityConf path =>
    rw [hfile] at hconf
    cases hconf
    unfold readEffectiveThreshold
    dsimp only
    rw [answered_bind]
    cases answered h.respond (readPamdInline denied conf d.name) with
    | value text => rfl
    | unreadable stack permissionDenied => rfl
    | notSet =>
      dsimp only
      rw [answered_bind]
      rfl

/-- A file that could be read, or is absent, with nothing before it in a stack. -/
theorem observed_settled (hconf : d.configFile.confPath = some conf) (hinline : inlineOf denied h d = .notSet)
    (hsettled : (h.conf denied conf).isSettled = true) :
    observed denied h d = .value ((observed denied h d).valueOrNotSet) ∧
        parseConfigValue (h.conf denied conf).contentOr d.name d.readFormat true = some (observed denied h d).valueOrNotSet ∨
      observed denied h d = .notSet ∧ parseConfigValue (h.conf denied conf).contentOr d.name d.readFormat true = none := by
  rw [observed_eq hconf, hinline]
  cases hread : h.conf denied conf with
  | content text layer =>
    unfold thresholdOf ConfRead.contentOr
    dsimp only
    cases parseConfigValue text d.name d.readFormat true with
    | some value => exact .inl ⟨rfl, rfl⟩
    | none => exact .inr ⟨rfl, rfl⟩
  | absent =>
    refine .inr ⟨rfl, ?_⟩
    unfold ConfRead.contentOr parseConfigValue
    cases d.readFormat <;> rfl
  | unreadable path reason permissionDenied =>
    rw [hread] at hsettled
    cases hsettled

/-! ## What a file that is written holds -/

structure Written (denied : Chars → Chars → Bool) (config : PluginConfig) (h : PamHost) (conf : String) (content : Chars) : Prop where
  settled : (h.conf denied conf).isSettled = true
  closed : content.getLast? = some '\n'
  inline : ∀ d ∈ pamDirectives, d.configFile.confPath = some conf → inlineOf denied h d = .notSet
  held : ∀ d ∈ pamDirectives, d.configFile.confPath = some conf → ∀ target, meant config (d, observed denied h d) = some target →
    Holds true d.configFile.configFormat content d.name target
  read : ∀ other, DirectiveName other → ∀ readFormat cs,
    (∀ d ∈ pamDirectives, d.configFile.confPath = some conf → (meant config (d, observed denied h d)).isSome = true →
      keyMatches cs d.name other = false) →
    parseConfigValue content other readFormat cs = parseConfigValue (h.conf denied conf).contentOr other readFormat cs

theorem mem_rounds {round : PamDirective × ThresholdRead} (hr : round ∈ rounds denied h) :
    round.1 ∈ pamDirectives ∧ round = (round.1, observed denied h round.1) := by
  obtain ⟨d, hd, rfl⟩ := List.mem_map.mp hr
  exact ⟨hd, rfl⟩

theorem edited_finalBuffer (path : String) (file : PamConfigFile) :
    Edited config file (rounds denied h) ⟨(h.conf denied path).contentOr, false⟩ (finalBuffer denied config h path file) := by
  refine foldl_editBuffer (fun r hr => sound_directive r.1 (mem_rounds hr).1) (fun r hr target hmeant => ?_)
    (List.pairwise_map.mpr names_apart)
  obtain ⟨hd, heq⟩ := mem_rounds hr
  rw [heq] at hmeant
  exact (tightens_meant (sound_directive r.1 hd) hmeant).token

theorem written_of_buffer {file : PamConfigFile} (hfile : ∀ d ∈ pamDirectives, d.configFile.confPath = some conf → d.configFile = file)
    (hplain : ∀ path, file ≠ .securityConf path) (hpath : file.confPath = some conf) {w : Chars × Chars}
    (hw : bufferWrite denied config h conf file = some w) : w.1 = conf.toList ∧ Written denied config h conf w.2 := by
  have hedited : Edited config file (rounds denied h) ⟨(h.conf denied conf).contentOr, false⟩ (finalBuffer denied config h conf file) :=
    edited_finalBuffer conf file
  unfold bufferWrite at hw
  dsimp only at hw
  split at hw
  · next hwrite =>
    obtain ⟨hchanged, hsettled⟩ := Bool.and_eq_true_iff.mp hwrite
    cases hw
    refine ⟨rfl, hsettled, ?_, fun d hd hconf => ?_, fun d hd hconf target hmeant => ?_, fun other hother readFormat cs hdiffer => ?_⟩
    · rcases hedited.closed with heq | hclosed
      · rw [heq] at hchanged
        cases hchanged
      · exact hclosed.2
    · unfold inlineOf
      split
      · next path heq => exact absurd ((hfile d hd hconf).symm.trans heq) (hplain path)
      · rfl
    · have hd' := hfile d hd hconf
      rw [hd']
      exact hedited.held (d, observed denied h d) (List.mem_map_of_mem hd) hd' target hmeant
    · refine hedited.read other hother readFormat cs fun r hr hedits => ?_
      obtain ⟨hd, heq⟩ := mem_rounds hr
      refine hdiffer r.1 hd ?_ (heq ▸ hedits.2)
      rw [hedits.1, hpath]
  · cases hw

theorem written_of_security (hd : d ∈ pamDirectives) (hfile : d.configFile = .securityConf conf)
    (hw : securityContent denied config h conf (d, observed denied h d) = some content) : Written denied config h conf content := by
  have hsound := sound_directive d hd
  unfold securityContent at hw
  dsimp only at hw
  split at hw
  · next hcond =>
    obtain ⟨hexception, hviolated, hinline, hsettled⟩ := hcond
    obtain ⟨b, hb, hspelled, -⟩ := hsound.place_baseline config
    have hmeant : meant config (d, observed denied h d) = some (clampedBaseline d config) := by
      unfold meant
      rw [Option.isNone_iff_eq_none.mp hexception]
      dsimp only
      rw [clamp_violated hb hspelled hviolated]
    have htoken := (tightens_meant hsound hmeant).token
    have hsole : ∀ d' ∈ pamDirectives, d'.configFile.confPath = some conf → d' = d := by
      intro d' hd' hconf
      have hsame : d'.configFile.confPath = d.configFile.confPath := by
        rw [hconf, hfile]
        rfl
      exact sole_securityConf d hd d' hd' conf hfile ((file_of_confPath d' hd' d hd hsame).trans hfile)
    cases hw
    refine ⟨hsettled, getLast_setConfigDirective _ _ _ _ _ _, fun d' hd' hconf => ?_, fun d' hd' hconf target htarget => ?_,
      fun other hother readFormat cs hdiffer => ?_⟩
    · rw [hsole d' hd' hconf]
      unfold inlineOf
      rw [hfile]
      exact hinline
    · obtain rfl := hsole d' hd' hconf
      rw [hmeant] at htarget
      obtain rfl := Option.some.inj htarget
      rw [hfile]
      exact holds_set hsound.name hsound.apart htoken
    · have hother' := hdiffer d hd (by rw [hfile]; rfl) (by rw [hmeant]; rfl)
      exact @parse_set_other true cs _ _ _ _ _ _ hsound.name (newline_not_mem_token htoken) hother hother' readFormat
  · cases hw

theorem mem_planned {w : Chars × Chars} (hw : w ∈ plannedWrites denied config h) :
    ∃ conf ∈ confFiles, w.1 = conf.toList ∧ Written denied config h conf w.2 := by
  have hpwquality : ∀ d ∈ pamDirectives, d.configFile.confPath = some pwqualityConf → d.configFile = .pwQuality :=
    fun d hd => (table_facts.2.1 d hd).2.2.1
  have hloginDefs : ∀ d ∈ pamDirectives, d.configFile.confPath = some loginDefs → d.configFile = .loginDefs :=
    fun d hd => (table_facts.2.1 d hd).2.2.2
  unfold plannedWrites at hw
  rcases List.mem_append.mp hw with hw | hw
  · rcases List.mem_append.mp hw with hw | hw
    · obtain ⟨r, hr, hround⟩ := List.mem_filterMap.mp hw
      obtain ⟨hd, heq⟩ := mem_rounds hr
      unfold roundWrite at hround
      split at hround
      · next path hfile =>
        obtain ⟨content, hcontent, rfl⟩ := Option.map_eq_some_iff.mp hround
        rw [heq] at hcontent
        exact ⟨path, own_confFiles r.1 hd path hfile, rfl, written_of_security hd hfile hcontent⟩
      · cases hround
    · obtain ⟨hpath, hwritten⟩ := written_of_buffer hpwquality (fun path heq => by cases heq) rfl (Option.mem_toList.mp hw)
      exact ⟨pwqualityConf, by decide, hpath, hwritten⟩
  · obtain ⟨hpath, hwritten⟩ := written_of_buffer hloginDefs (fun path heq => by cases heq) rfl (Option.mem_toList.mp hw)
    exact ⟨loginDefs, by decide, hpath, hwritten⟩

/-- A file is written once at most. -/
theorem nodup_planned : ((plannedWrites denied config h).map Prod.fst).Nodup := by
  have hkeys : (pamDirectives.flatMap own ++ [pwqualityConf.toList] ++ [loginDefs.toList]).Nodup := table_facts.2.2.2.2.1
  have hbuffer : ∀ (path : String) (file : PamConfigFile),
      ((bufferWrite denied config h path file).toList.map Prod.fst).Sublist [path.toList] := by
    intro path file
    unfold bufferWrite
    dsimp only
    split
    · exact List.Sublist.refl _
    · exact List.nil_sublist _
  have hrounds : (((rounds denied h).filterMap (roundWrite denied config h)).map Prod.fst).Sublist (pamDirectives.flatMap own) := by
    unfold rounds
    generalize pamDirectives = directives
    induction directives with
    | nil => exact List.Sublist.refl _
    | cons d directives ih =>
      rw [List.map_cons, List.filterMap_cons, List.flatMap_cons]
      cases hround : roundWrite denied config h (d, observed denied h d) with
      | none => exact ih.trans (List.sublist_append_right _ _)
      | some w =>
        rw [List.map_cons]
        have hown : [w.1].Sublist (own d) := List.singleton_sublist.mpr (mem_own_of_roundWrite hround)
        exact hown.append ih
  unfold plannedWrites
  rw [List.map_append, List.map_append]
  exact ((hrounds.append (hbuffer _ _)).append (hbuffer _ _)).nodup hkeys

/-! ## The host behind some of the writes -/

theorem conf_storeAll_mem (hnodup : (ws.map Prod.fst).Nodup) (hw : (conf.toList, content) ∈ ws) :
    (h.storeAll ws).conf denied conf = .content content .admin := by
  have hstored : (h.storeAll ws).file conf.toList = some content ∧ (h.storeAll ws).refuses conf.toList = none := by
    obtain ⟨before, after, rfl⟩ := List.append_of_mem hw
    have hafter : conf.toList ∉ after.map Prod.fst := by
      rw [List.map_append, List.map_cons] at hnodup
      exact (List.nodup_cons.mp (List.nodup_append.mp hnodup).2.1).1
    have hsplit : h.storeAll (before ++ (conf.toList, content) :: after) =
        ((h.storeAll before).store conf.toList content).storeAll after := by
      rw [PamHost.storeAll_append]
      rfl
    have hagree := storeAll_agree (PamHost.Agree.refl (after.map Prod.fst) ((h.storeAll before).store conf.toList content))
      fun w hw => List.mem_map_of_mem hw
    obtain ⟨hfile, hrefuses⟩ := hagree.read conf.toList hafter
    rw [hsplit, hfile, hrefuses]
    exact ⟨if_pos rfl, if_pos rfl⟩
  have hread : (h.storeAll ws).respond (.readFile conf.toList) = .ok content := by
    show (h.storeAll ws).read conf.toList = _
    unfold PamHost.read
    rw [hstored.1, hstored.2]
  have hone : answered (h.storeAll ws).respond (readOne denied conf.toList) = .content content := by
    unfold readOne
    rw [answered_bind]
    have hanswer : answered (h.storeAll ws).respond (readFile conf.toList) = .ok content := hread
    rw [hanswer]
    rfl
  show answered (h.storeAll ws).respond (readConfClassified denied conf.toList) = _
  unfold readConfClassified readLayered
  rw [answered_bind, answered_bind, hone]
  rfl

theorem keys_of_sublist (hsub : ws.Sublist (plannedWrites denied config h)) :
    (ws.map Prod.fst).Nodup ∧ ∀ w ∈ ws, ∃ conf ∈ confFiles, w.1 = conf.toList ∧ Written denied config h conf w.2 :=
  ⟨(hsub.map Prod.fst).nodup nodup_planned, fun _ hw => mem_planned (hsub.subset hw)⟩

theorem inlineOf_storeAll (hsub : ws.Sublist (plannedWrites denied config h)) (hconf : conf ∈ confFiles)
    (hpath : d.configFile.confPath = some conf) : inlineOf denied (h.storeAll ws) d = inlineOf denied h d := by
  have hagree := storeAll_agree (PamHost.Agree.refl (ws.map Prod.fst) h) fun w hw => List.mem_map_of_mem hw
  unfold inlineOf
  cases hfile : d.configFile with
  | securityConf path =>
    rw [hfile] at hpath
    cases hpath
    refine inline_agree hagree fun file hfile p hp hin => ?_
    obtain ⟨w, hw, rfl⟩ := List.mem_map.mp hin
    obtain ⟨conf', hconf', heq, -⟩ := (keys_of_sublist hsub).2 w hw
    exact (confFiles_apart conf hconf conf' hconf').2 file hfile (heq ▸ hp)
  | _ => rfl

/-- A file that none of the writes is of stays as it was. -/
theorem conf_storeAll_other (hsub : ws.Sublist (plannedWrites denied config h)) (hconf : conf ∈ confFiles)
    (hother : ∀ content, (conf.toList, content) ∉ ws) : (h.storeAll ws).conf denied conf = h.conf denied conf := by
  have hagree := storeAll_agree (PamHost.Agree.refl (ws.map Prod.fst) h) fun w hw => List.mem_map_of_mem hw
  refine conf_agree hagree fun p hp hin => ?_
  obtain ⟨w, hw, rfl⟩ := List.mem_map.mp hin
  obtain ⟨conf', hconf', heq, -⟩ := (keys_of_sublist hsub).2 w hw
  have hsame := (confFiles_apart conf hconf conf' hconf').1 (heq ▸ hp)
  apply hother w.2
  rw [← hsame, ← heq]
  exact hw

/-- What a directive reads as behind some of the writes: where its file was written, as the target
meant for it, or as before if it is excepted. -/
theorem observed_storeAll (hsub : ws.Sublist (plannedWrites denied config h)) (hd : d ∈ pamDirectives)
    (hpath : d.configFile.confPath = some conf) :
    (∃ content, (conf.toList, content) ∈ ws ∧ Written denied config h conf content ∧
      observed denied (h.storeAll ws) d =
        match meant config (d, observed denied h d) with
        | some target => .value target
        | none => observed denied h d) ∨
      ((∀ content, (conf.toList, content) ∉ ws) ∧ observed denied (h.storeAll ws) d = observed denied h d) := by
  have hconf := confFiles_of_confPath d hd conf hpath
  have hinline := inlineOf_storeAll hsub hconf hpath
  have hsound := sound_directive d hd
  by_cases hwrites : ∃ content, (conf.toList, content) ∈ ws
  · obtain ⟨content, hw⟩ := hwrites
    obtain ⟨conf', -, heq, hwritten⟩ := (keys_of_sublist hsub).2 _ hw
    obtain rfl := String.toList_injective heq
    refine .inl ⟨content, hw, hwritten, ?_⟩
    have hnone := hwritten.inline d hd hpath
    rw [observed_eq hpath, hinline, hnone, conf_storeAll_mem (keys_of_sublist hsub).1 hw]
    dsimp only
    unfold thresholdOf
    dsimp only
    cases hmeant : meant config (d, observed denied h d) with
    | some target =>
      have htoken := (tightens_meant hsound hmeant).token
      rw [parse_of_holds hsound.name htoken (hwritten.held d hd hpath target hmeant)]
    | none =>
      -- An excepted directive is set by no round, and names tell the directives apart.
      have hread : parseConfigValue content d.name d.readFormat true = parseConfigValue (h.conf denied conf).contentOr d.name
          d.readFormat true := by
        refine hwritten.read d.name hsound.name d.readFormat true fun d' hd' _ hsome => ?_
        by_contra hsame
        have hname : d'.name = d.name := by simpa [keyMatches] using hsame
        rw [directive_of_name d hd d' hd' hname, hmeant] at hsome
        cases hsome
      rw [hread]
      rcases observed_settled hpath hnone hwritten.settled with ⟨hvalue, hparse⟩ | ⟨hvalue, hparse⟩
      · rw [hparse]
        exact hvalue.symm
      · rw [hparse]
        exact hvalue.symm
  · have hother : ∀ content, (conf.toList, content) ∉ ws := fun content hw => hwrites ⟨content, hw⟩
    refine .inr ⟨hother, ?_⟩
    rw [observed_eq hpath, observed_eq hpath, hinline, conf_storeAll_other hsub hconf hother]

/-! ## The apply -/

theorem appliedWrites_sublist (ctx : Context) : (appliedWrites denied ctx config h).Sublist (plannedWrites denied config h) := by
  unfold appliedWrites
  split
  · exact List.nil_sublist _
  · exact List.Sublist.refl _

/-- The host behind an apply is the one behind some of the writes planned, and all of these where
everything works. -/
theorem afterwards_applyPlugin (ctx : Context) (config : PluginConfig) (h : PamHost) :
    ∃ ws : List (Chars × Chars), ws.Sublist (plannedWrites denied config h) ∧
      h.afterwards (applyPlugin denied clock ctx config) = h.storeAll ws ∧ (Works clock h → ws = appliedWrites denied ctx config h) := by
  obtain ⟨ws, hsub, hafter, hall⟩ := (@makes_applyPlugin denied clock ctx config h).made
  exact ⟨ws, hsub.trans (appliedWrites_sublist ctx), hafter, hall⟩

end

/-- A host that locks an account after ten failed attempts, and has no other file of ours. -/
def tenAttempts : PamHost :=
  { file := fun path => if path = faillockConf.toList then some "deny = 10\n".toList else none
    refuses := fun _ => none
    hides := fun _ => none
    isDir := fun path => path = "/etc/security".toList
    write := fun _ => .ok ()
    metadata := fun _ => .error "not asked".toList
    entries := fun _ => .ok []
    command := fun _ _ => .ok ⟨[], [], 0⟩
    checkpoint := .ok "before".toList }

def denyDirective : PamDirective :=
  ⟨"deny", "5", "Lock the account after at most 5 failed attempts", .high, .securityConf faillockConf, .atMost⟩

theorem denyDirective_mem : denyDirective ∈ pamDirectives := by simp [pamDirectives, denyDirective]

/-- What an apply without a configuration makes of the host. -/
def appliedTenAttempts : PamHost :=
  tenAttempts.afterwards (applyPlugin (fun _ _ => false) (fun _ => .ok 0) ⟨false, true⟩ ⟨fun _ => none, fun _ => none⟩)

theorem works_tenAttempts : Works (fun _ => .ok 0) tenAttempts :=
  ⟨fun _ _ => rfl, fun _ => ⟨_, rfl, rfl⟩, fun _ => ⟨_, rfl, rfl⟩, fun _ _ => rfl⟩

theorem reads_tenAttempts :
    observed (fun _ _ => false) tenAttempts denyDirective = .value "10" ∧
    inlineOf (fun _ _ => false) tenAttempts denyDirective = .notSet ∧
    (tenAttempts.conf (fun _ _ => false) faillockConf).isSettled = true ∧
    (Strictness.atMost.place "10").isSome = true ∧ Strictness.atMost.violatedBy "5" (some "10") = true := by
  decide +kernel

/-- Whatever goes wrong, a directive reads as before, or as a target that nothing before it was
stricter than: a value it had, the baseline and the secure value. -/
theorem only_tightened (denied : Chars → Chars → Bool) (clock : Chars → Except Chars Nat) (ctx : Context) (config : PluginConfig)
    (h : PamHost) {d : PamDirective} (hd : d ∈ pamDirectives) :
    let before := observed denied h d
    let found := observed denied (h.afterwards (applyPlugin denied clock ctx config)) d
    found = before ∨ ∃ target, found = .value target ∧ config.matchingException d.name before.valueOrNotSet = none ∧
      (∀ path permissionDenied, before ≠ .unreadable path permissionDenied) ∧ Tightens d config before target := by
  dsimp only
  obtain ⟨ws, hsub, hafter, -⟩ := @afterwards_applyPlugin denied clock ctx config h
  obtain ⟨conf, hpath⟩ : ∃ conf, d.configFile.confPath = some conf := by
    exact Option.isSome_iff_exists.mp (table_facts.2.1 d hd).1
  rw [hafter]
  rcases observed_storeAll hsub hd hpath with ⟨content, -, hwritten, hfound⟩ | ⟨-, hfound⟩
  · cases hmeant : meant config (d, observed denied h d) with
    | none =>
      rw [hmeant] at hfound
      exact .inl hfound
    | some target =>
      rw [hmeant] at hfound
      refine .inr ⟨target, hfound, (meant_eq hmeant).1, fun path permissionDenied hunread => ?_, tightens_meant (sound_directive d hd) hmeant⟩
      rcases observed_settled hpath (hwritten.inline d hd hpath) hwritten.settled with ⟨hvalue, -⟩ | ⟨hvalue, -⟩ <;>
        rw [hunread] at hvalue <;> cases hvalue
  · exact .inl hfound

theorem only_tightened_tenAttempts :
    observed (fun _ _ => false) appliedTenAttempts denyDirective = .value "10" ∨
      ∃ target, observed (fun _ _ => false) appliedTenAttempts denyDirective = .value target ∧
        Strictness.atMost.violatedBy "5" (some target) = false ∧ Strictness.atMost.violatedBy "10" (some target) = false := by
  rcases only_tightened (fun _ _ => false) (fun _ => .ok 0) ⟨false, true⟩ ⟨fun _ => none, fun _ => none⟩ tenAttempts
    denyDirective_mem with hsame | ⟨target, hfound, -, -, htightens⟩
  · rw [reads_tenAttempts.1] at hsame
    exact .inl hsame
  · exact .inr ⟨target, hfound, htightens.secure, htightens.before "10" reads_tenAttempts.1 reads_tenAttempts.2.2.2.1⟩

/-- Whatever goes wrong, what an apply writes is the configuration files, each once at most and
only where it could be read or is absent; and what it does not set reads in them as it did in the
file in force, be it the vendor's. -/
theorem rest_untouched (denied : Chars → Chars → Bool) (clock : Chars → Except Chars Nat) (ctx : Context) (config : PluginConfig)
    (h : PamHost) :
    let writes := h.writes (applyPlugin denied clock ctx config)
    (writes.map Prod.fst).Nodup ∧ ∀ w ∈ writes, ∃ conf ∈ confFiles, w.1 = conf.toList ∧ (h.conf denied conf).isSettled = true ∧
      ∀ other, DirectiveName other → ∀ readFormat cs,
        (∀ d ∈ pamDirectives, d.configFile.confPath = some conf →
          config.matchingException d.name (observed denied h d).valueOrNotSet = none → keyMatches cs d.name other = false) →
        parseConfigValue w.2 other readFormat cs = parseConfigValue (h.conf denied conf).contentOr other readFormat cs := by
  dsimp only
  have hsub := (@makes_applyPlugin denied clock ctx config h).asked.trans (appliedWrites_sublist ctx)
  obtain ⟨hnodup, hwrites⟩ := keys_of_sublist hsub
  refine ⟨hnodup, fun w hw => ?_⟩
  obtain ⟨conf, hconf, hpath, hwritten⟩ := hwrites w hw
  refine ⟨conf, hconf, hpath, hwritten.settled, fun other hother readFormat cs hdiffer => ?_⟩
  refine hwritten.read other hother readFormat cs fun d hd hfile hsome => hdiffer d hd hfile ?_
  obtain ⟨target, hmeant⟩ := Option.isSome_iff_exists.mp hsome
  exact (meant_eq hmeant).1

/-! ## Where nothing goes wrong -/

section

variable {denied : Chars → Chars → Bool} {clock : Chars → Except Chars Nat} {config : PluginConfig} {h : PamHost} {d : PamDirective}
  {conf : String}

/-- A directive in breach, of a file that nothing stands before, has its file written. -/
theorem planned_of_violated (hd : d ∈ pamDirectives) (hpath : d.configFile.confPath = some conf)
    (hexception : config.matchingException d.name (observed denied h d).valueOrNotSet = none) (hinline : inlineOf denied h d = .notSet)
    (hsettled : (h.conf denied conf).isSettled = true)
    (hviolated : d.compare.violatedBy (clampedBaseline d config) (some (observed denied h d).valueOrNotSet) = true) :
    ∃ content, (conf.toList, content) ∈ plannedWrites denied config h := by
  have hsound := sound_directive d hd
  have hbuffer : ∀ file, d.configFile = file → file.confPath = some conf →
      ∃ w, bufferWrite denied config h conf file = some w ∧ w.1 = conf.toList := by
    intro file hfile _
    obtain ⟨target, hmeant⟩ : ∃ target, meant config (d, observed denied h d) = some target := by
      unfold meant
      rw [hexception]
      exact ⟨_, rfl⟩
    have htightens := tightens_meant hsound hmeant
    have hedited : Edited config file (rounds denied h) ⟨(h.conf denied conf).contentOr, false⟩ (finalBuffer denied config h conf file) :=
      edited_finalBuffer conf file
    unfold bufferWrite
    dsimp only
    rw [hsettled, Bool.and_true]
    rcases hedited.closed with heq | ⟨hchanged, -⟩
    · -- An unchanged file holds the target already, which is not in breach.
      exfalso
      have hheld := hedited.held (d, observed denied h d) (List.mem_map_of_mem hd) hfile target hmeant
      rw [heq] at hheld
      have hparse := parse_of_holds hsound.name htightens.token hheld d.readFormat
      rcases observed_settled hpath hinline hsettled with ⟨-, hread⟩ | ⟨-, hread⟩
      · rw [hparse] at hread
        rw [← Option.some.inj hread, htightens.baseline] at hviolated
        cases hviolated
      · rw [hparse] at hread
        cases hread
    · rw [hchanged, if_pos rfl]
      exact ⟨_, rfl, rfl⟩
  unfold plannedWrites
  cases hfile : d.configFile with
  | pwQuality =>
    rw [hfile] at hpath
    cases hpath
    obtain ⟨w, hw, hkey⟩ := hbuffer _ hfile rfl
    refine ⟨w.2, List.mem_append_left _ (List.mem_append_right _ (Option.mem_toList.mpr ?_))⟩
    rw [hw, ← hkey]
  | loginDefs =>
    rw [hfile] at hpath
    cases hpath
    obtain ⟨w, hw, hkey⟩ := hbuffer _ hfile rfl
    refine ⟨w.2, List.mem_append_right _ (Option.mem_toList.mpr ?_)⟩
    rw [hw, ← hkey]
  | pamAuth =>
    rw [hfile] at hpath
    cases hpath
  | securityConf path =>
    have hround := hinline
    unfold inlineOf at hround
    rw [hfile] at hpath hround
    cases hpath
    have hwrite : roundWrite denied config h (d, observed denied h d) =
        some (conf.toList, setConfigDirective (h.conf denied conf).contentOr d.name (clampedBaseline d config) .keyValue true .remove) := by
      unfold roundWrite securityContent
      rw [hfile]
      dsimp only
      rw [if_pos ⟨by rw [hexception]; rfl, hviolated, hround, hsettled⟩]
      rfl
    exact ⟨_, List.mem_append_left _ (List.mem_append_left _ (List.mem_filterMap.mpr ⟨_, List.mem_map_of_mem hd, hwrite⟩))⟩

/-- Behind an apply that wrote all it meant to, a file held in memory is not edited again. -/
theorem bufferWrite_again {file : PamConfigFile} (hpath : file.confPath = some conf) (hconf : conf ∈ confFiles)
    (hplanned : ∀ w, bufferWrite denied config h conf file = some w → w ∈ plannedWrites denied config h) :
    bufferWrite denied config (h.storeAll (plannedWrites denied config h)) conf file = none := by
  have hall := List.Sublist.refl (plannedWrites denied config h)
  have hof : ∀ d : PamDirective, d.configFile = file → d.configFile.confPath = some conf := fun d heq => heq ▸ hpath
  unfold bufferWrite
  dsimp only
  rw [ite_eq_right_iff]
  intro hwrite
  exfalso
  obtain ⟨hchanged, hsettled⟩ := Bool.and_eq_true_iff.mp hwrite
  by_cases hwritten : ∃ content, (conf.toList, content) ∈ plannedWrites denied config h
  · obtain ⟨content, hw⟩ := hwritten
    obtain ⟨conf', -, heq, hheld⟩ := (keys_of_sublist hall).2 _ hw
    obtain rfl := String.toList_injective heq
    have hsame : finalBuffer denied config (h.storeAll (plannedWrites denied config h)) conf file = ⟨content, false⟩ := by
      unfold finalBuffer
      rw [conf_storeAll_mem (keys_of_sublist hall).1 hw]
      refine foldl_editBuffer_of_holds (fun r hr => sound_directive r.1 (mem_rounds hr).1) ?_ fun r hr hr' target hmeant => ?_
      · show content.getLast? ≠ some '\r'
        rw [hheld.closed]
        decide
      · obtain ⟨hd, heq⟩ := mem_rounds hr
        have hsound := sound_directive r.1 hd
        rw [heq] at hmeant
        rcases observed_storeAll hall hd (hof r.1 hr') with ⟨_, -, -, hfound⟩ | ⟨hother, -⟩
        · cases hbefore : meant config (r.1, observed denied h r.1) with
          | some target' =>
            rw [hbefore] at hfound
            rw [hfound] at hmeant
            obtain rfl := meant_again hsound hbefore hmeant
            refine ⟨(tightens_meant hsound hbefore).token, ?_⟩
            rw [← hr']
            exact hheld.held r.1 hd (hof r.1 hr') target hbefore
          | none =>
            rw [hbefore] at hfound
            rw [hfound, hbefore] at hmeant
            cases hmeant
        · exact absurd hw (hother content)
    rw [hsame] at hchanged
    cases hchanged
  · -- The rounds find the file as the first run did, which had nothing to change in it.
    have hother : ∀ content, (conf.toList, content) ∉ plannedWrites denied config h := fun content hw => hwritten ⟨content, hw⟩
    have hread := @conf_storeAll_other denied config h conf _ hall hconf hother
    have hsame : finalBuffer denied config (h.storeAll (plannedWrites denied config h)) conf file = finalBuffer denied config h conf file := by
      unfold finalBuffer rounds
      rw [List.foldl_map, List.foldl_map, hread]
      refine List.foldl_ext _ _ _ fun buffer d hd => ?_
      by_cases hd' : d.configFile = file
      · rcases observed_storeAll hall hd (hof d hd') with ⟨content, hw, -⟩ | ⟨-, hfound⟩
        · exact absurd hw (hother content)
        · rw [hfound]
      · rw [editBuffer_idle fun hedits => hd' hedits.1, editBuffer_idle fun hedits => hd' hedits.1]
    rw [hsame] at hchanged
    rw [hread] at hsettled
    refine hother (finalBuffer denied config h conf file).content (hplanned _ ?_)
    unfold bufferWrite
    dsimp only
    rw [hchanged, hsettled]
    rfl

/-- Nor is a file under `/etc/security` written again. -/
theorem roundWrite_again (hd : d ∈ pamDirectives) :
    roundWrite denied config (h.storeAll (plannedWrites denied config h))
      (d, observed denied (h.storeAll (plannedWrites denied config h)) d) = none := by
  have hall := List.Sublist.refl (plannedWrites denied config h)
  unfold roundWrite
  dsimp only
  split
  · next path hfile =>
    have hpath : d.configFile.confPath = some path := by
      rw [hfile]
      rfl
    rw [Option.map_eq_none_iff]
    unfold securityContent
    dsimp only
    rw [ite_eq_right_iff]
    rintro ⟨hexception, hviolated, hinline, hsettled⟩
    exfalso
    have hnone := Option.isNone_iff_eq_none.mp hexception
    rcases observed_storeAll hall hd hpath with ⟨content, hw, hwritten, hfound⟩ | ⟨hother, hfound⟩
    · cases hbefore : meant config (d, observed denied h d) with
      | some target =>
        rw [hbefore] at hfound
        rw [met_of_meant (sound_directive d hd) hbefore hfound] at hviolated
        cases hviolated
      | none =>
        rw [hbefore] at hfound
        have hexcepted := meant_none hbefore
        rw [hfound] at hnone
        rw [hnone] at hexcepted
        cases hexcepted
    · -- What is still in breach would have been written by the first run.
      have hconf := confFiles_of_confPath d hd path hpath
      have hinline' : inlineOf denied h d = .notSet := by
        rw [← inlineOf_storeAll hall hconf hpath]
        unfold inlineOf
        rw [hfile]
        exact hinline
      rw [hfound] at hnone hviolated
      rw [@conf_storeAll_other denied config h path _ hall hconf hother] at hsettled
      obtain ⟨content, hw⟩ := planned_of_violated hd hpath hnone hinline' hsettled hviolated
      exact hother content hw
  · rfl

theorem plannedWrites_again : plannedWrites denied config (h.storeAll (plannedWrites denied config h)) = [] := by
  have hpwquality := @bufferWrite_again denied config h pwqualityConf .pwQuality rfl (by decide)
    fun w hw => List.mem_append_left _ (List.mem_append_right _ (Option.mem_toList.mpr hw))
  have hloginDefs := @bufferWrite_again denied config h loginDefs .loginDefs rfl (by decide)
    fun w hw => List.mem_append_right _ (Option.mem_toList.mpr hw)
  have hrounds : (rounds denied (h.storeAll (plannedWrites denied config h))).filterMap
      (roundWrite denied config (h.storeAll (plannedWrites denied config h))) = [] := by
    apply List.filterMap_eq_nil_iff.mpr
    intro r hr
    obtain ⟨hd, heq⟩ := mem_rounds hr
    rw [heq]
    exact roundWrite_again hd
  rw [plannedWrites, hpwquality, hloginDefs, hrounds]
  rfl

theorem afterwards_of_works (hworks : Works clock h) {ctx : Context} (hcheckpoint : ctx.hasCheckpointManager = true → h.checkpoint.isOk = true) :
    h.afterwards (applyPlugin denied clock ctx config) = h.storeAll (plannedWrites denied config h) := by
  obtain ⟨ws, -, hafter, hall⟩ := @afterwards_applyPlugin denied clock ctx config h
  rw [hafter, hall hworks, appliedWrites, if_neg]
  intro hrefused
  obtain ⟨hmanager, hfailed⟩ := Bool.and_eq_true_iff.mp hrefused
  rw [hcheckpoint hmanager] at hfailed
  cases hfailed

end

/-- There an apply leaves the next one nothing to write. -/
theorem nothing_to_rewrite (denied : Chars → Chars → Bool) {clock : Chars → Except Chars Nat} (clock' : Chars → Except Chars Nat)
    (ctx ctx' : Context) (config : PluginConfig) {h : PamHost} (hworks : Works clock h)
    (hcheckpoint : ctx.hasCheckpointManager = true → h.checkpoint.isOk = true) :
    (h.afterwards (applyPlugin denied clock ctx config)).writes (applyPlugin denied clock' ctx' config) = [] := by
  rw [afterwards_of_works hworks hcheckpoint]
  have hasked := (@makes_applyPlugin denied clock' ctx' config (h.storeAll (plannedWrites denied config h))).asked.trans
    (appliedWrites_sublist ctx')
  rw [plannedWrites_again] at hasked
  exact List.sublist_nil.mp hasked

theorem nothing_to_rewrite_tenAttempts :
    appliedTenAttempts.writes (applyPlugin (fun _ _ => false) (fun _ => .ok 1) ⟨false, false⟩ ⟨fun _ => none, fun _ => none⟩) = [] :=
  nothing_to_rewrite (fun _ _ => false) (fun _ => .ok 1) ⟨false, true⟩ ⟨false, false⟩ ⟨fun _ => none, fun _ => none⟩ works_tenAttempts
    fun _ => rfl

end LinuxHardener.Pam
