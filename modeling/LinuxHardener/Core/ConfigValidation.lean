import LinuxHardener.Firewall.Rules

/-
  What a firewall directive must be for a configuration to load (`config_validation.rs`).

  Correspondence (Rust ↔ Lean):
    `validate_directive_key`, `check_universal` ↔ `validateDirectiveKey`, `checkUniversal`
    `validate_firewall_value`                   ↔ `validateFirewallValue`
    `validate_plugin_directives`, at one entry  ↔ `validateFirewallDirective`
-/
namespace LinuxHardener.Core

open LineText
open Firewall (u16Bound parsePorts)

/-- `SHELL_METACHARACTERS` -/
def shellMetacharacters : Chars :=
  [';', Char.ofNat 96, '$', '(', ')', '\x7b', '\x7d', '|', '&', '\n', '\r', Char.ofNat 0]

def checkUniversal (value : Chars) : Except Chars Unit :=
  match value.find? shellMetacharacters.contains with
  | none => .ok ()
  | some bad =>
    let label : Chars :=
      if bad = '\n' then "newline" else if bad = '\r' then "carriage return" else if bad = Char.ofNat 0 then "null byte"
      else ['\'', bad, '\'']
    .error ("contains forbidden character ".toList ++ label)

def isKeyChar (c : Char) : Bool := c.isAlphanum || c == '.' || c == '_' || c == '-' || c == '/'

def validateDirectiveKey (pluginId key : Chars) : Except Chars Unit :=
  if key = [] ∨ 128 < (String.ofList key).utf8ByteSize then .error ("directive key too long or empty: '".toList ++ key ++ ['\''])
  else if !key.all isKeyChar then
    .error ("directive key for '".toList ++ pluginId ++ "' contains invalid characters: '".toList ++ key ++ ['\''])
  else if contains key ".." then .error ("directive key contains '..': '".toList ++ key ++ ['\''])
  else .ok ()

/-- A port or a range of two, each as a port number. -/
def validatedPorts (value : Chars) : Option (Nat × Nat) :=
  match (value.splitOn '-').mapM (parseUnsigned u16Bound) with
  | some [port] => some (port, port)
  | some [low, high] => some (low, high)
  | _ => none

/-- Compound keys `<rule_id>.<field>`: by field. -/
def validateFirewallValue (key value : Chars) : Except Chars Unit :=
  match (key.splitOn '.').getLast? with
  | some field =>
    if field = "port".toList then
      if (validatedPorts value).isSome then .ok () else .error ("expected port or port range, got '".toList ++ value ++ ['\''])
    else if field = "protocol".toList then
      if value = "tcp".toList ∨ value = "udp".toList ∨ value = "any".toList then .ok ()
      else .error ("expected tcp|udp|any, got '".toList ++ value ++ ['\''])
    else if field = "action".toList then
      if value = "accept".toList ∨ value = "drop".toList ∨ value = "reject".toList then .ok ()
      else .error ("expected accept|drop|reject, got '".toList ++ value ++ ['\''])
    else if field = "source".toList then
      if value.all fun c => c.isDigit || c == '.' || c == '/' || c == ':' then .ok ()
      else .error ("expected IP/CIDR, got '".toList ++ value ++ ['\''])
    else .ok ()
  | none => .ok ()

def validateFirewallDirective (key value : Chars) : Except Chars Unit := do
  validateDirectiveKey "firewall" key
  checkUniversal value
  validateFirewallValue key value

theorem not_dash_of_parseUnsigned {bound n : Nat} {s : Chars} (h : parseUnsigned bound s = some n) : '-' ∉ s := by
  intro hmem
  obtain hdigit | hplus := isDigit_of_parseUnsigned h '-' hmem
  · cases hdigit
  · cases hplus

/-- The validator and the breadth comparison read one set in a port string. -/
theorem validatedPorts_eq (value : Chars) : validatedPorts value = parsePorts value := by
  unfold validatedPorts parsePorts
  cases hs : splitOnce '-' value with
  | none =>
    rw [List.splitOn_eq_singleton (splitOnce_none.mp hs)]
    cases hp : parseUnsigned u16Bound value <;> simp [hp]
  | some ends =>
    obtain ⟨low, high⟩ := ends
    obtain ⟨rfl, hlow⟩ := splitOnce_some hs
    rw [List.splitOn_append_cons_self_of_not_mem hlow]
    cases hh : splitOnce '-' high with
    | none =>
      rw [List.splitOn_eq_singleton (splitOnce_none.mp hh)]
      cases hl : parseUnsigned u16Bound low <;> cases hp : parseUnsigned u16Bound high <;> simp [hl, hp]
    | some more =>
      -- A second dash leaves three pieces, and makes no number of the second end.
      obtain ⟨middle, last⟩ := more
      obtain ⟨rfl, hmiddle⟩ := splitOnce_some hh
      have hnone : parseUnsigned u16Bound (middle ++ '-' :: last) = none := by
        cases hp : parseUnsigned u16Bound (middle ++ '-' :: last) with
        | none => rfl
        | some n => exact absurd (by simp) (not_dash_of_parseUnsigned hp)
      rw [List.splitOn_append_cons_self_of_not_mem hmiddle]
      obtain ⟨piece, pieces, hpieces⟩ := List.exists_cons_of_ne_nil (List.splitOn_ne_nil '-' last)
      rw [hpieces]
      simp only [List.mapM_cons, hnone]
      cases parseUnsigned u16Bound low <;> cases parseUnsigned u16Bound middle <;> cases parseUnsigned u16Bound piece <;>
        cases pieces.mapM (parseUnsigned u16Bound) <;> rfl

/-- What the validator takes for a port is what can be read as ports. -/
theorem validateFirewallValue_port {key value : Chars} (hkey : (key.splitOn '.').getLast? = some "port".toList) :
    validateFirewallValue key value = .ok () ↔ (parsePorts value).isSome = true := by
  rw [validateFirewallValue, hkey, ← validatedPorts_eq]
  dsimp only
  rw [if_pos rfl]
  cases validatedPorts value <;> simp

end LinuxHardener.Core
