import LinuxHardener.Firewall.NftAgreement
import LinuxHardener.Firewall.UfwAgreement
import LinuxHardener.Firewall.FirewalldAgreement

/-
  Whether the statements a backend emits admit what the rule list admits.

  A backend agrees with a list when, of the packets that open a connection, the tool
  admits exactly those the list does: nft with the chain it loads, ufw and firewalld
  after the statements they take, whatever their default was before. `agrees_iff` says
  exactly when a backend agrees with the list a configuration leaves.
-/
namespace LinuxHardener.Firewall

open LineText Plugins

/-- A backend agrees with a rule list. -/
def Agrees : Backend → List Rule → Prop
  | .nftables => NftAgrees
  | .ufw => UfwAgrees
  | .firewalld => FirewalldAgrees

/-- What a backend needs of a configuration to agree with the list it leaves. -/
def AgreesWhen (config : PluginConfig) : Backend → Prop
  | .nftables => nftChain (buildRules config).1 = none ∨ NftFaithful config
  | .ufw => UfwFaithful config
  | .firewalld => FirewalldFaithful config

/-- Exactly when a backend agrees with the list a configuration leaves. -/
theorem agrees_iff (config : PluginConfig) (b : Backend) : Agrees b (buildRules config).1 ↔ AgreesWhen config b := by
  cases b with
  | nftables => exact nft_agrees_iff
  | ufw => exact ufw_agrees_iff
  | firewalld => exact firewalld_agrees_iff

/-- SSH from the operator's own network alone. -/
def sshFromTens : PluginConfig where
  directives key := if key = "ssh.source".toList then some "10.0.0.0/8" else none
  exceptions _ := none

/-- firewalld opens the port to every address. -/
theorem firewalld_forgets_source : ¬ Agrees .firewalld (buildRules sshFromTens).1 := by
  rw [show Agrees .firewalld = FirewalldAgrees from rfl, firewalld_agrees_iff]
  rintro ⟨_, _, hssh⟩
  have hs : effectiveRule sshFromTens sshRule = some { sshRule with source := "10.0.0.0/8" } := by decide
  have hany := hssh _ hs rfl
  revert hany
  decide

end LinuxHardener.Firewall
