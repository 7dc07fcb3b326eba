import LinuxHardener.Fleet.Selection

/-
  Whether the desktop's fleet scan and fleet apply reach the same machines.

  The desktop takes an inventory by its last entry of a name, the command line by its
  first; the one drops a repeated name and trims a target, the other does neither, cuts
  names at commas and lets no saved profile stand in for a target that spells its name.
  What is proved: `same_machines_iff` — every part of a selection reaches the same
  machines exactly where `ReadAlike` holds of it.
-/
namespace LinuxHardener.Fleet

open LineText
open RemoteHostProfile

/-- What the desktop hands to both: it has admitted each entry. A plugin is admitted by
the id or the short name of a registered one, none of which begins with a hyphen. -/
structure Selection where
  hosts : List Chars
  adhoc : List Chars
  plugins : List Chars
  hosts_valid : ∀ h ∈ hosts, validateIpcString h "host_name".toList = .ok ()
  adhoc_valid : ∀ t ∈ adhoc, ∃ p, adhocProfile t = .ok p
  plugins_valid : ∀ p ∈ plugins, readsAsFlag p = false

/-- A selection of some of the same hosts and targets. -/
def Selection.PartOf (part s : Selection) : Prop :=
  part.hosts.Sublist s.hosts ∧ part.adhoc.Sublist s.adhoc

/-- One to one and in order, the rows connect to what the command line selects. -/
def SameMachines (parser : ArgumentParser) (inventory : List RemoteHostProfile) (verb : Verb) (execute : Bool)
    (s : Selection) : Prop :=
  fleetRows inventory s.hosts s.adhoc =
    .ok ((selectedEndpoints parser inventory (buildBatchArgs verb s.hosts s.adhoc s.plugins execute)).map some)

/-- A target as the command line reads it. -/
def inlineProfile (target : Chars) : RemoteHostProfile := fromTarget target 22 none true

/-- The two readings of a selection agree entry by entry. -/
structure ReadAlike (inventory : List RemoteHostProfile) (s : Selection) : Prop where
  plain_host : ∀ n ∈ s.hosts, ',' ∉ n ∧ readsAsFlag n = false
  hosts_nodup : s.hosts.Nodup
  one_entry : ∀ n ∈ s.hosts, ∃ first last,
    (inventory.find? fun h => h.name == n) = some first ∧ byName inventory n = some last ∧ first.endpoint = last.endpoint
  plain_target : ∀ t ∈ s.adhoc, readsAsFlag t = false
  own_target : ∀ t ∈ s.adhoc, ∀ saved, byName inventory t = some saved → saved.endpoint = (inlineProfile t).endpoint
  trimmed : ∀ t ∈ s.adhoc, byName inventory t = none → trim t = t

variable {inventory : List RemoteHostProfile}

/-! ## The desktop's rows -/

/-- The map of saved profiles and targets: a saved profile comes before a target that spells its name. -/
def profilesOf (inventory : List RemoteHostProfile) (adhoc : List Chars) (k : Chars) : Option RemoteHostProfile :=
  (byName inventory k).or (if adhoc.contains k then some (fromTarget (trim k) 22 none true) else none)

theorem profilesOf_saved {adhoc : List Chars} {k : Chars} {saved : RemoteHostProfile} (h : byName inventory k = some saved) :
    profilesOf inventory adhoc k = some saved := by
  simp [profilesOf, h]

theorem profilesOf_target {adhoc : List Chars} {t : Chars} (h : t ∈ adhoc) :
    profilesOf inventory adhoc t = some (rowProfile inventory t) := by
  unfold profilesOf rowProfile
  cases byName inventory t with
  | some saved => rfl
  | none => simp [h]

theorem fleetRows_eq {hosts adhoc : List Chars} (h : ∀ t ∈ adhoc, ∃ p, adhocProfile t = .ok p) :
    fleetRows inventory hosts adhoc = .ok ((fleetRowNames hosts adhoc (profilesOf inventory adhoc)).map
      fun name => (profilesOf inventory adhoc name).map endpoint) := by
  have htargets : fleetTargets inventory adhoc = .ok (profilesOf inventory adhoc) := by
    have hok : fleetTargets inventory adhoc = _ := insertTargets_ok h
    rw [hok]
    apply congrArg Except.ok
    funext k
    simp only [profilesOf, List.contains_iff_mem]
  rw [fleetRows, htargets]
  rfl

/-- The ad-hoc rows are the targets' endpoints, each address once and none that has a row. -/
theorem map_adhocRows {profiles : Chars → Option RemoteHostProfile} {f : Chars → Endpoint} {adhoc : List Chars}
    (hf : ∀ t ∈ adhoc, (profiles t).map endpoint = some (f t)) {seen endpoints : List Chars}
    (hseen : ∀ t ∈ adhoc, t ∈ seen → (f t).target ∈ endpoints) :
    (adhocRows profiles seen endpoints adhoc).map (fun t => (profiles t).map endpoint) =
      (firstBy Endpoint.target endpoints (adhoc.map f)).map some := by
  induction adhoc generalizing seen endpoints with
  | nil => simp [adhocRows, firstBy]
  | cons t rest ih =>
    have hrest : ∀ t' ∈ rest, (profiles t').map endpoint = some (f t') := fun t' ht' => hf t' (List.mem_cons_of_mem _ ht')
    have ht := hf t List.mem_cons_self
    have htarget : (profiles t).map RemoteHostProfile.target = some (f t).target := by
      have := congrArg (Option.map Endpoint.target) ht
      rwa [Option.map_map] at this
    rw [adhocRows, List.map_cons, firstBy, htarget]
    by_cases hmem : t ∈ seen
    · rw [if_pos hmem, if_pos (hseen t List.mem_cons_self hmem)]
      exact ih hrest fun t' ht' => hseen t' (List.mem_cons_of_mem _ ht')
    · rw [if_neg hmem]
      by_cases hend : (f t).target ∈ endpoints
      · simp only [if_pos hend]
        apply ih hrest
        intro t' ht' hs
        obtain rfl | hs := List.mem_cons.mp hs
        · exact hend
        · exact hseen t' (List.mem_cons_of_mem _ ht') hs
      · simp only [if_neg hend, List.map_cons, ht]
        rw [ih hrest]
        intro t' ht' hs
        obtain rfl | hs := List.mem_cons.mp hs
        · exact List.mem_cons_self
        · exact List.mem_cons_of_mem _ (hseen t' (List.mem_cons_of_mem _ ht') hs)

/-! ## The command line's hosts -/

variable {parser : ArgumentParser} {verb : Verb} {execute : Bool} {s : Selection}

/-- The options of the arguments the desktop builds. -/
def optionsOf (s : Selection) : List (Flag × Chars) :=
  s.hosts.map (fun h => (.host, h)) ++ s.adhoc.map (fun t => (.ssh, t)) ++ s.plugins.map fun p => (.plugin, p)

theorem buildBatchArgs_eq :
    buildBatchArgs verb s.hosts s.adhoc s.plugins execute = argumentsOf verb (optionsOf s) execute := by
  have hflat : (optionsOf s).flatMap (fun o => [o.1.text, o.2]) =
      s.hosts.flatMap (fun h => [Flag.host.text, h]) ++ s.adhoc.flatMap (fun t => [Flag.ssh.text, t]) ++
        s.plugins.flatMap fun p => [Flag.plugin.text, p] := by
    rw [optionsOf, List.flatMap_append, List.flatMap_append, List.flatMap_map, List.flatMap_map, List.flatMap_map]
  unfold buildBatchArgs argumentsOf
  rw [hflat, ← List.append_assoc, ← List.append_assoc]
  unfold Flag.text
  rfl

theorem valuesOf_options : valuesOf .host (optionsOf s) = s.hosts ∧ valuesOf .ssh (optionsOf s) = s.adhoc := by
  simp [valuesOf, optionsOf, List.filter_map, Function.comp_def]

/-- Where an entry begins like an option, the command line is refused. -/
theorem selectedEndpoints_refused (h : ∃ v ∈ s.hosts ++ s.adhoc, readsAsFlag v = true) :
    selectedEndpoints parser inventory (buildBatchArgs verb s.hosts s.adhoc s.plugins execute) = [] := by
  obtain ⟨v, hv, hflag⟩ := h
  have hopt : ∃ o ∈ optionsOf s, readsAsFlag o.2 = true := by
    obtain hv | hv := List.mem_append.mp hv
    · exact ⟨(.host, v), by simp [optionsOf, hv], hflag⟩
    · exact ⟨(.ssh, v), by simp [optionsOf, hv], hflag⟩
  rw [selectedEndpoints, buildBatchArgs_eq, parser.refuses verb _ execute hopt]

/-- The hosts resolved are those named, then the targets, each address once. -/
theorem resolveHosts_endpoints (inventory : List RemoteHostProfile) (names : List Chars) (inlined : List RemoteHostProfile) :
    (match resolveHosts inventory false names inlined with
      | .ok profiles => profiles.map endpoint
      | .error _ => []) =
      match names.mapM (findHost inventory) with
      | .ok selected => selected.map endpoint ++
          firstBy Endpoint.target (selected.map RemoteHostProfile.target) (inlined.map endpoint)
      | .error _ => [] := by
  unfold resolveHosts
  rw [if_neg (by decide)]
  cases names.mapM (findHost inventory) with
  | error e => rfl
  | ok selected =>
    have hfold := foldl_addInline inlined selected (selected.map RemoteHostProfile.target) fun _ => Iff.rfl
    have hmap : (inlined.foldl addInline selected).map endpoint = selected.map endpoint ++
        firstBy Endpoint.target (selected.map RemoteHostProfile.target) (inlined.map endpoint) := by
      rw [hfold, List.map_append]
      apply congrArg
      exact map_firstBy endpoint Endpoint.target _ inlined
    simp only [bind, Except.bind]
    rw [← hmap]
    cases inlined.foldl addInline selected with
    | nil => rfl
    | cons p profiles => rfl

/-- Otherwise the names are cut at commas and looked up, and the targets follow. -/
theorem selectedEndpoints_eq (h : ∀ v ∈ s.hosts ++ s.adhoc, readsAsFlag v = false) :
    selectedEndpoints parser inventory (buildBatchArgs verb s.hosts s.adhoc s.plugins execute) =
      match (s.hosts.flatMap (List.splitOn ',')).mapM (findHost inventory) with
      | .ok selected => selected.map endpoint ++
          firstBy Endpoint.target (selected.map RemoteHostProfile.target) (s.adhoc.map fun t => (inlineProfile t).endpoint)
      | .error _ => [] := by
  have hopt : ∀ o ∈ optionsOf s, readsAsFlag o.2 = false := by
    intro o ho
    simp only [optionsOf, List.mem_append, List.mem_map] at ho
    obtain (⟨v, hv, rfl⟩ | ⟨v, hv, rfl⟩) | ⟨v, hv, rfl⟩ := ho
    · exact h v (List.mem_append_left _ hv)
    · exact h v (List.mem_append_right _ hv)
    · exact s.plugins_valid v hv
  have hends := resolveHosts_endpoints inventory (s.hosts.flatMap (List.splitOn ',')) (s.adhoc.map inlineProfile)
  rw [List.map_map] at hends
  rw [selectedEndpoints, buildBatchArgs_eq, parser.reads verb _ execute hopt]
  refine Eq.trans ?_ hends
  simp only [resolveProfiles, declaredArgs, valuesOf_options.1, valuesOf_options.2, Bool.not_false, parseInline]
  show (match (resolveHosts inventory false _ (s.adhoc.map inlineProfile) >>= fun profiles => .ok (profiles.map (fillKey none))) with
    | .ok profiles => profiles.map endpoint
    | .error _ => []) = _
  cases resolveHosts inventory false (s.hosts.flatMap (List.splitOn ',')) (s.adhoc.map inlineProfile) with
  | error e => rfl
  | ok profiles => simp [bind, Except.bind, fillKey]

/-! ## Where the readings agree -/

theorem flatMap_splitOn {names : List Chars} (h : ∀ n ∈ names, ',' ∉ n) : names.flatMap (List.splitOn ',') = names := by
  induction names with
  | nil => rfl
  | cons n names ih =>
    rw [List.flatMap_cons, List.splitOn_eq_singleton (h n List.mem_cons_self), ih fun m hm => h m (List.mem_cons_of_mem _ hm)]
    rfl

theorem findHost_eq_ok {n : Chars} {p : RemoteHostProfile} :
    findHost inventory n = .ok p ↔ (inventory.find? fun h => h.name == n) = some p := by
  unfold findHost
  cases inventory.find? fun h => h.name == n with
  | none => simp
  | some q => simp

/-- Names with one endpoint each are found, with the endpoints their rows have. -/
theorem mapM_findHost {names : List Chars} (h : ∀ n ∈ names, ∃ first last,
    (inventory.find? fun h => h.name == n) = some first ∧ byName inventory n = some last ∧ first.endpoint = last.endpoint) :
    ∃ selected, names.mapM (findHost inventory) = .ok selected ∧
      selected.map (fun p => some p.endpoint) = names.map fun n => (byName inventory n).map endpoint := by
  induction names with
  | nil => exact ⟨[], rfl, rfl⟩
  | cons n names ih =>
    obtain ⟨first, last, hfirst, hlast, heq⟩ := h n List.mem_cons_self
    obtain ⟨selected, hsel, hmap⟩ := ih fun m hm => h m (List.mem_cons_of_mem _ hm)
    refine ⟨first :: selected, ?_, ?_⟩
    · rw [List.mapM_cons, findHost_eq_ok.mpr hfirst, hsel]
      rfl
    · rw [List.map_cons, List.map_cons, hmap, hlast, heq]
      rfl

theorem same_of_readAlike (h : ReadAlike inventory s) : SameMachines parser inventory verb execute s := by
  obtain ⟨selected, hsel, hmap⟩ := mapM_findHost h.one_entry
  have hflags : ∀ v ∈ s.hosts ++ s.adhoc, readsAsFlag v = false := by
    intro v hv
    obtain hv | hv := List.mem_append.mp hv
    · exact (h.plain_host v hv).2
    · exact h.plain_target v hv
  have hnames : firstBy id [] s.hosts = s.hosts := firstBy_eq_self (by simpa using h.hosts_nodup) (by simp)
  have htarget : ∀ t ∈ s.adhoc, (profilesOf inventory s.adhoc t).map endpoint = some (inlineProfile t).endpoint := by
    intro t ht
    rw [profilesOf_target ht, rowProfile]
    cases hsaved : byName inventory t with
    | some saved => simp [h.own_target t ht saved hsaved]
    | none => simp [h.trimmed t ht hsaved, inlineProfile]
  have hrows : s.hosts.map (fun n => (profilesOf inventory s.adhoc n).map endpoint) = selected.map fun p => some p.endpoint := by
    rw [hmap]
    apply List.map_congr_left
    intro n hn
    obtain ⟨-, last, -, hlast, -⟩ := h.one_entry n hn
    rw [profilesOf_saved hlast, hlast]
  have hends : (s.hosts.filterMap fun n => (profilesOf inventory s.adhoc n).map RemoteHostProfile.target) =
      selected.map RemoteHostProfile.target := by
    have := congrArg (List.filterMap (Option.map Endpoint.target)) hrows
    rw [List.filterMap_map, List.filterMap_map] at this
    simpa [Function.comp_def, Option.map_map, show RemoteHostProfile.target = fun p => p.endpoint.target from rfl] using this
  rw [SameMachines, selectedEndpoints_eq hflags, flatMap_splitOn fun n hn => (h.plain_host n hn).1, hsel,
    fleetRows_eq s.adhoc_valid, fleetRowNames, hnames, hends, List.map_append, hrows, map_adhocRows htarget]
  · simp
  · intro t ht hs
    rw [← hends]
    refine List.mem_filterMap.mpr ⟨t, hs, ?_⟩
    have := congrArg (Option.map Endpoint.target) (htarget t ht)
    rwa [Option.map_map] at this

/-! ## Where they do not -/

/-- The rows and the endpoints of one name, of one name twice, and of one target. -/
theorem fleetRows_one_host (inventory : List RemoteHostProfile) (n : Chars) : fleetRows inventory [n] [] = .ok [(byName inventory n).map endpoint] := by
  simp [fleetRows, fleetTargets, insertTargets, bind, Except.bind, fleetRowNames, firstBy, adhocRows]

theorem fleetRows_host_twice (inventory : List RemoteHostProfile) (n : Chars) : fleetRows inventory [n, n] [] = .ok [(byName inventory n).map endpoint] := by
  simp [fleetRows, fleetTargets, insertTargets, bind, Except.bind, fleetRowNames, firstBy, adhocRows]

theorem fleetRows_one_target (inventory : List RemoteHostProfile) {t : Chars} (h : ∃ p, adhocProfile t = .ok p) :
    fleetRows inventory [] [t] = .ok [some (rowProfile inventory t).endpoint] := by
  have hmap : (profilesOf inventory [t] t).map endpoint = some (rowProfile inventory t).endpoint := by
    rw [profilesOf_target List.mem_cons_self]
    rfl
  rw [fleetRows_eq (by simpa using h), fleetRowNames]
  simp only [firstBy, List.filterMap_nil, List.nil_append]
  rw [map_adhocRows (f := fun t => (rowProfile inventory t).endpoint)]
  · simp [firstBy]
  · simpa using hmap
  · simp

theorem length_mapM_findHost {names : List Chars} {selected : List RemoteHostProfile}
    (h : names.mapM (findHost inventory) = .ok selected) : selected.length = names.length := by
  induction names generalizing selected with
  | nil =>
    cases h
    rfl
  | cons n names ih =>
    rw [List.mapM_cons] at h
    cases hn : findHost inventory n with
    | error e =>
      rw [hn] at h
      cases h
    | ok p =>
      cases hrest : names.mapM (findHost inventory) with
      | error e =>
        rw [hn, hrest] at h
        cases h
      | ok rest =>
        rw [hn, hrest] at h
        cases h
        simp [ih hrest]

/-- A list of names gives as many endpoints as it has names once cut, or none. -/
theorem length_selectedEndpoints (parser : ArgumentParser) (inventory : List RemoteHostProfile) (verb : Verb)
    (execute : Bool) (hs : s.adhoc = []) :
    (selectedEndpoints parser inventory (buildBatchArgs verb s.hosts s.adhoc s.plugins execute)).length = 0 ∨
      (selectedEndpoints parser inventory (buildBatchArgs verb s.hosts s.adhoc s.plugins execute)).length =
        (s.hosts.flatMap (List.splitOn ',')).length := by
  by_cases hflag : ∃ v ∈ s.hosts ++ s.adhoc, readsAsFlag v = true
  · exact .inl (by rw [selectedEndpoints_refused hflag]; rfl)
  · have hflags : ∀ v ∈ s.hosts ++ s.adhoc, readsAsFlag v = false := by
      intro v hv
      exact Bool.eq_false_iff.mpr fun h => hflag ⟨v, hv, h⟩
    rw [selectedEndpoints_eq hflags]
    cases hsel : (s.hosts.flatMap (List.splitOn ',')).mapM (findHost inventory) with
    | error e => exact .inl rfl
    | ok selected =>
      right
      simp [hs, firstBy, length_mapM_findHost hsel]

theorem two_le_length_splitOn {n : Chars} (h : ',' ∈ n) : 2 ≤ (n.splitOn ',').length := by
  obtain ⟨before, after, rfl⟩ := List.append_of_mem h
  rw [List.splitOn_append_cons_self, List.length_append]
  have hb := List.length_pos_of_ne_nil (List.splitOn_ne_nil ',' before)
  have ha := List.length_pos_of_ne_nil (List.splitOn_ne_nil ',' after)
  omega

/-- The part of a selection that is one name. -/
def Selection.oneHost (s : Selection) {n : Chars} (h : n ∈ s.hosts) : Selection :=
  { s with hosts := [n], adhoc := [], hosts_valid := by simpa using s.hosts_valid n h, adhoc_valid := by simp }

/-- The part that is one name twice. -/
def Selection.hostTwice (s : Selection) {n : Chars} (h : n ∈ s.hosts) : Selection :=
  { s with hosts := [n, n], adhoc := [], hosts_valid := by simpa using s.hosts_valid n h, adhoc_valid := by simp }

/-- The part that is one target. -/
def Selection.oneTarget (s : Selection) {t : Chars} (h : t ∈ s.adhoc) : Selection :=
  { s with hosts := [], adhoc := [t], hosts_valid := by simp, adhoc_valid := by simpa using s.adhoc_valid t h }

section

variable (hparts : ∀ part : Selection, part.PartOf s → SameMachines parser inventory verb execute part)
include hparts

theorem oneHost_of_parts {n : Chars} (hn : n ∈ s.hosts) :
    (',' ∉ n ∧ readsAsFlag n = false) ∧ ∃ first last, (inventory.find? fun h => h.name == n) = some first ∧
      byName inventory n = some last ∧ first.endpoint = last.endpoint := by
  have hsame := hparts (s.oneHost hn) ⟨by simpa [Selection.oneHost] using hn, by simp [Selection.oneHost]⟩
  have hrow := fleetRows_one_host inventory n
  unfold SameMachines at hsame
  have heq := hrow.symm.trans hsame
  simp only [Except.ok.injEq] at heq
  have hlen := congrArg List.length heq
  rw [List.length_map, List.length_singleton] at hlen
  have hcomma : ',' ∉ n := by
    intro h
    have htwo := two_le_length_splitOn h
    have := length_selectedEndpoints (s := s.oneHost hn) parser inventory verb execute rfl
    simp only [Selection.oneHost, List.flatMap_cons, List.flatMap_nil, List.append_nil] at this hlen
    omega
  have hflag : readsAsFlag n = false := by
    apply Bool.eq_false_iff.mpr
    intro h
    rw [selectedEndpoints_refused ⟨n, by simp [Selection.oneHost], h⟩] at hlen
    cases hlen
  refine ⟨⟨hcomma, hflag⟩, ?_⟩
  rw [selectedEndpoints_eq (by simpa [Selection.oneHost] using hflag)] at heq
  have hcut : [n].flatMap (List.splitOn ',') = [n] := flatMap_splitOn (by simpa using hcomma)
  simp only [Selection.oneHost, hcut, List.mapM_cons, List.mapM_nil] at heq
  cases hfind : inventory.find? fun h => h.name == n with
  | none =>
    simp [findHost, hfind, bind, Except.bind] at heq
  | some first =>
    rw [findHost_eq_ok.mpr hfind] at heq
    simp only [bind, Except.bind, pure, Except.pure, List.map_cons, List.map_nil, firstBy, List.append_nil,
      List.cons.injEq, and_true] at heq
    obtain ⟨last, hlast, hends⟩ := Option.map_eq_some_iff.mp heq
    exact ⟨first, last, rfl, hlast, hends.symm⟩

theorem hosts_nodup_of_parts : s.hosts.Nodup := by
  apply List.nodup_iff_sublist.mpr
  intro n hsub
  have hn : n ∈ s.hosts := hsub.subset List.mem_cons_self
  have hsame := hparts (s.hostTwice hn) ⟨hsub, by simp [Selection.hostTwice]⟩
  unfold SameMachines at hsame
  have heq := (fleetRows_host_twice inventory n).symm.trans hsame
  simp only [Except.ok.injEq] at heq
  have hlen := congrArg List.length heq
  rw [List.length_map, List.length_singleton] at hlen
  have hcut : [n, n].flatMap (List.splitOn ',') = [n, n] :=
    flatMap_splitOn (by simpa using (oneHost_of_parts hparts hn).1.1)
  have := length_selectedEndpoints (s := s.hostTwice hn) parser inventory verb execute rfl
  simp only [Selection.hostTwice, hcut, List.length_cons, List.length_nil] at this hlen
  omega

theorem oneTarget_of_parts {t : Chars} (ht : t ∈ s.adhoc) :
    readsAsFlag t = false ∧ (rowProfile inventory t).endpoint = (inlineProfile t).endpoint := by
  have hsame := hparts (s.oneTarget ht) ⟨by simp [Selection.oneTarget], by simpa [Selection.oneTarget] using ht⟩
  unfold SameMachines at hsame
  have heq := (fleetRows_one_target inventory (s.adhoc_valid t ht)).symm.trans hsame
  simp only [Except.ok.injEq] at heq
  have hflag : readsAsFlag t = false := by
    apply Bool.eq_false_iff.mpr
    intro h
    rw [selectedEndpoints_refused ⟨t, by simp [Selection.oneTarget], h⟩] at heq
    cases heq
  refine ⟨hflag, ?_⟩
  rw [selectedEndpoints_eq (by simpa [Selection.oneTarget] using hflag)] at heq
  simpa [Selection.oneTarget, pure, Except.pure, firstBy] using heq

theorem readAlike_of_parts : ReadAlike inventory s where
  plain_host n hn := (oneHost_of_parts hparts hn).1
  hosts_nodup := hosts_nodup_of_parts hparts
  one_entry n hn := (oneHost_of_parts hparts hn).2
  plain_target t ht := (oneTarget_of_parts hparts ht).1
  own_target t ht saved hsaved := by
    have h := (oneTarget_of_parts hparts ht).2
    rwa [rowProfile, hsaved] at h
  trimmed t ht hnone := by
    have h := (oneTarget_of_parts hparts ht).2
    rw [rowProfile, hnone] at h
    obtain ⟨p, hp⟩ := s.adhoc_valid t ht
    obtain ⟨rfl, hvalid⟩ := adhocProfile_eq_ok hp
    exact trim_eq_self_of_endpoint hvalid h.symm

end

/-- Parts of a selection that is read alike are read alike. -/
theorem ReadAlike.part {part : Selection} (h : ReadAlike inventory s) (hpart : part.PartOf s) : ReadAlike inventory part where
  plain_host n hn := h.plain_host n (hpart.1.subset hn)
  hosts_nodup := h.hosts_nodup.sublist hpart.1
  one_entry n hn := h.one_entry n (hpart.1.subset hn)
  plain_target t ht := h.plain_target t (hpart.2.subset ht)
  own_target t ht := h.own_target t (hpart.2.subset ht)
  trimmed t ht := h.trimmed t (hpart.2.subset ht)

/-- A selection and all its parts reach the same machines exactly where its entries are read alike. -/
theorem same_machines_iff (parser : ArgumentParser) (inventory : List RemoteHostProfile) (verb : Verb) (execute : Bool)
    (s : Selection) :
    (∀ part : Selection, part.PartOf s → SameMachines parser inventory verb execute part) ↔ ReadAlike inventory s :=
  ⟨readAlike_of_parts, fun h _ hpart => same_of_readAlike (h.part hpart)⟩

/-! ## A parser of these command lines, and a selection they read apart -/

def flagOf (arg : Chars) : Option Flag :=
  if arg = Flag.host.text then some .host
  else if arg = Flag.ssh.text then some .ssh
  else if arg = Flag.plugin.text then some .plugin
  else none

/-- The options up to the fixed end of the line, and whether `--execute` stood before it. -/
def scanOptions : List Chars → Option (List (Flag × Chars) × Bool)
  | arg :: value :: rest =>
    match flagOf arg with
    | some flag =>
      if readsAsFlag value then none
      else (scanOptions rest).map fun (options, execute) => ((flag, value) :: options, execute)
    | none => some ([], arg == "--execute".toList)
  | _ => none

def scanArguments : List Chars → Option BatchArgs
  | _ :: _ :: rest => (scanOptions rest).map fun (options, execute) => declaredArgs options execute
  | _ => none

theorem flagOf_text (flag : Flag) : flagOf flag.text = some flag := by
  cases flag <;> decide

def lineEnd (execute : Bool) : List Chars :=
  (if execute then ["--execute".toList] else []) ++ ["--format".toList, "json".toList]

theorem scanOptions_end (execute : Bool) : scanOptions (lineEnd execute) = some ([], execute) := by
  cases execute <;> decide

theorem scanOptions_reads {options : List (Flag × Chars)} (h : ∀ o ∈ options, readsAsFlag o.2 = false) (execute : Bool) :
    scanOptions (options.flatMap (fun o => [o.1.text, o.2]) ++ lineEnd execute) = some (options, execute) := by
  induction options with
  | nil => exact scanOptions_end execute
  | cons o options ih =>
    have hrest := ih fun o' ho' => h o' (List.mem_cons_of_mem _ ho')
    simp only [List.flatMap_cons, List.cons_append, List.nil_append]
    rw [scanOptions, flagOf_text]
    simp [h o List.mem_cons_self, hrest]

theorem scanOptions_refuses {options : List (Flag × Chars)} (h : ∃ o ∈ options, readsAsFlag o.2 = true) (execute : Bool) :
    scanOptions (options.flatMap (fun o => [o.1.text, o.2]) ++ lineEnd execute) = none := by
  induction options with
  | nil =>
    obtain ⟨o, ho, -⟩ := h
    cases ho
  | cons o options ih =>
    simp only [List.flatMap_cons, List.cons_append, List.nil_append]
    rw [scanOptions, flagOf_text]
    by_cases ho : readsAsFlag o.2 = true
    · simp [ho]
    · have hrest : ∃ o' ∈ options, readsAsFlag o'.2 = true := by
        obtain ⟨o', hmem, ho'⟩ := h
        obtain rfl | hmem := List.mem_cons.mp hmem
        · exact absurd ho' ho
        · exact ⟨o', hmem, ho'⟩
      simp [ho, ih hrest]

theorem scanArguments_of (verb : Verb) (options : List (Flag × Chars)) (execute : Bool) :
    scanArguments (argumentsOf verb options execute) =
      (scanOptions (options.flatMap (fun o => [o.1.text, o.2]) ++ lineEnd execute)).map
        fun (options, execute) => declaredArgs options execute := by
  simp only [argumentsOf, lineEnd, scanArguments, List.cons_append, List.nil_append, List.append_assoc]

def scanningParser : ArgumentParser where
  parse := scanArguments
  reads verb options execute h := by
    rw [scanArguments_of, scanOptions_reads h]
    rfl
  refuses verb options execute h := by
    rw [scanArguments_of, scanOptions_refuses h]
    rfl

def webAt (hostname : String) : RemoteHostProfile where
  name := "web".toList
  hostname := hostname.toList
  user := none
  port := 22
  keyFile := none
  hostKeyChecking := true

def selectWeb : Selection where
  hosts := ["web".toList]
  adhoc := []
  plugins := []
  hosts_valid := by simp only [List.mem_singleton, forall_eq]; rfl
  adhoc_valid := by simp
  plugins_valid := by simp

/-- An inventory with two entries of one name: the scan connects to the last, the apply to the first. -/
theorem scanned_and_hardened_apart : ¬ ∀ (parser : ArgumentParser) (inventory : List RemoteHostProfile) (verb : Verb)
    (execute : Bool) (s : Selection), SameMachines parser inventory verb execute s := by
  intro h
  have halike : ReadAlike [webAt "10.0.0.1", webAt "10.0.0.2"] selectWeb :=
    readAlike_of_parts fun part _ => h scanningParser _ .apply true part
  obtain ⟨first, last, hfirst, hlast, heq⟩ := halike.one_entry "web".toList (by simp [selectWeb])
  cases hfirst
  cases hlast
  revert heq
  decide

end LinuxHardener.Fleet
