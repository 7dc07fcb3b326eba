/-
  Compliance frameworks, the controls they list, and the identifiers a profile
  renders them under.

  Correspondence (Rust ↔ Lean):
    `hardener_types::{ComplianceFramework, ComplianceProfile, ComplianceMapping}` ↔ the types of these names
    `ComplianceFramework::{ALL, id, from_id}` ↔ `ComplianceFramework.all`, `.id`, `.fromId`
    `profiles::{translate, translate_all}`    ↔ `translate`, `translateAll`, over the tables
      `rhel10Stig` and `rhel10Cis`
    `frameworks::curated_controls`            ↔ `curatedControls`, over `cisControls` and
      `iso27001Controls`
-/
namespace LinuxHardener.Compliance

/-! ## Frameworks and profiles -/

inductive ComplianceFramework where
  | cis | hipaa | iso27001 | nist | pcidss | stig | gdpr | soc2 | nist800171 | fedRAMP
  deriving DecidableEq, Repr

/-- `ComplianceFramework::ALL`, in its order. -/
def ComplianceFramework.all : List ComplianceFramework :=
  [.cis, .stig, .nist, .pcidss, .hipaa, .gdpr, .iso27001, .soc2, .nist800171, .fedRAMP]

def ComplianceFramework.id : ComplianceFramework → String
  | .cis => "cis"
  | .hipaa => "hipaa"
  | .iso27001 => "iso27001"
  | .nist => "nist"
  | .pcidss => "pci-dss"
  | .stig => "stig"
  | .gdpr => "gdpr"
  | .soc2 => "soc2"
  | .nist800171 => "800-171"
  | .fedRAMP => "fedramp"

/-- The ids, then the aliases. Lowering the case of ASCII letters decides the same: no
other letter lowers to one these ids have. -/
def ComplianceFramework.fromId (s : String) : Option ComplianceFramework :=
  let lower := s.toLower
  match all.find? (fun f => f.id == lower) with
  | some f => some f
  | none =>
    if lower = "pcidss" ∨ lower = "pci" then some .pcidss
    else if lower = "iso" ∨ lower = "iso-27001" then some .iso27001
    else if lower = "soc-2" then some .soc2
    else if lower = "nist800171" ∨ lower = "nist-800-171" then some .nist800171
    else if lower = "fed-ramp" then some .fedRAMP
    else none

inductive ComplianceProfile where
  | generic | rhel10
  deriving DecidableEq, Repr

/-- A framework's control, as a plugin or a catalogue names it. -/
structure ComplianceMapping where
  complianceFramework : ComplianceFramework
  complianceControlId : String
  complianceControlTitle : String
  complianceSection : Option String
  deriving DecidableEq, Repr

/-! ## Profiles -/

/-- A canonical id, the profile's id and title for it, and its section where that differs. -/
abbrev Row := String × String × String × Option String

/-- `RHEL10_STIG` -/
def rhel10Stig : List Row := [
  ("RHEL-08-010430", "RHEL-10-701130",
    "RHEL 10 must implement address space layout randomization (ASLR) to protect its memory from " ++
    "unauthorized code execution.", none),
  ("RHEL-08-040283", "RHEL-10-701060", "RHEL 10 must restrict exposed kernel pointer address access.", none),
  ("RHEL-08-010375", "RHEL-10-701030", "RHEL 10 must restrict access to the kernel message buffer.", none),
  ("RHEL-08-040282", "RHEL-10-701140", "RHEL 10 must restrict usage of ptrace to descendant processes.", none),
  ("RHEL-08-010374", "RHEL-10-701070",
    "RHEL 10 must enable kernel parameters to enforce discretionary access control (DAC) on hardlinks.", none),
  ("RHEL-08-010374", "RHEL-10-701080",
    "RHEL 10 must enable kernel parameters to enforce discretionary access control (DAC) on symlinks.", none),
  ("RHEL-08-040285", "RHEL-10-800130",
    "RHEL 10 must use reverse path filtering on all Internet Protocol version 4 (IPv4) interfaces.", none),
  ("RHEL-08-040285", "RHEL-10-800160",
    "RHEL 10 must use a reverse-path filter for Internet Protocol version 4 (IPv4) network traffic " ++
    "when possible by default.", none),
  ("RHEL-08-040239", "RHEL-10-800100",
    "RHEL 10 must not forward Internet Protocol version 4 (IPv4) source-routed packets.", none),
  ("RHEL-08-040239", "RHEL-10-800150",
    "RHEL 10 must not forward Internet Protocol version 4 (IPv4) source-routed packets by default.", none),
  ("RHEL-08-020230", "RHEL-10-600220",
    "RHEL 10 must enforce that passwords be created with a minimum of 15 characters.", none),
  ("RHEL-08-020130", "RHEL-10-600310",
    "RHEL 10 must enforce password complexity by requiring that at least one numeric character be used.", none),
  ("RHEL-08-020110", "RHEL-10-600250",
    "RHEL 10 must enforce password complexity by requiring that at least one uppercase character be used.", none),
  ("RHEL-08-020120", "RHEL-10-600240",
    "RHEL 10 must enforce password complexity by requiring that at least one lowercase character be used.", none),
  ("RHEL-08-020280", "RHEL-10-600230",
    "RHEL 10 must enforce password complexity by requiring at least one special character to be used.", none),
  ("RHEL-08-020150", "RHEL-10-600290",
    "RHEL 10 must require that the maximum number of repeating characters be limited to three when " ++
    "passwords are changed.", none),
  ("RHEL-08-020011", "RHEL-10-600410",
    "RHEL 10 must automatically lock an account when three unsuccessful login attempts occur.", none),
  ("RHEL-08-020200", "RHEL-10-600100",
    "RHEL 10 must, for new users or password changes, have a 60-day maximum password lifetime " ++
    "restriction for user account passwords in \"/etc/login.defs\".", none),
  ("RHEL-08-020190", "RHEL-10-600210",
    "RHEL 10 must enforce a 24-hours minimum password lifetime restriction for passwords for new " ++
    "users or password changes in \"/etc/login.defs\".", none),
  ("RHEL-08-040101", "RHEL-10-200531", "RHEL 10 must have the \"firewalld\" service set to active.", none),
  ("RHEL-08-010291", "RHEL-10-300040",
    "RHEL 10 must be configured so that Secure Shell (SSH) servers use only DOD-approved encryption " ++
    "ciphers employing FIPS 140-3-validated cryptographic hash algorithms to protect the " ++
    "confidentiality of SSH server connections.", none),
  ("RHEL-08-010290", "RHEL-10-300060",
    "RHEL 10 must be configured so that Secure Shell (SSH) servers use only DOD-approved Message " ++
    "Authentication Codes (MACs) employing FIPS 140-3-validated cryptographic hash algorithms to " ++
    "protect the confidentiality of SSH server connections.", none),
  ("OL08-00-030180", "RHEL-10-200660", "RHEL 10 must have the \"audit\" package installed.", none),
  ("OL08-00-030181", "RHEL-10-200661", "RHEL 10 must enable the audit service.", none),
  ("OL08-00-010170", "RHEL-10-700420",
    "RHEL 10 must use a Linux Security Module configured to enforce limits on system services.", none)]

/-- `RHEL10_CIS` -/
def rhel10Cis : List Row := [
  ("1.5.1", "1.5.8", "Ensure kernel.randomize_va_space is configured", none),
  ("1.5.2", "1.5.7", "Ensure kernel.yama.ptrace_scope is configured", none),
  ("1.5.3", "1.5.4", "Ensure fs.suid_dumpable is configured", none),
  ("1.5.4", "1.5.5", "Ensure kernel.dmesg_restrict is configured", none),
  ("1.5.4", "1.5.6", "Ensure kernel.kptr_restrict is configured", none),
  ("1.6.1.1", "1.3.1.1", "Ensure SELinux is installed", none),
  ("1.6.1.2", "1.3.1.2", "Ensure SELinux is not disabled in bootloader configuration", none),
  ("1.6.1.3", "1.3.1.3", "Ensure SELinux policy is configured", none),
  ("1.6.1.4", "1.3.1.5", "Ensure the SELinux mode is enforcing", none),
  ("2.2.2", "2.1.20", "Ensure X window server services are not in use", none),
  ("2.2.3", "2.1.2", "Ensure avahi daemon services are not in use", none),
  ("2.2.4", "2.1.10", "Ensure print server services are not in use", none),
  ("3.2.1", "3.3.1.14", "Ensure net.ipv4.conf.all.accept_source_route is configured", none),
  ("3.2.1", "3.3.1.15", "Ensure net.ipv4.conf.default.accept_source_route is configured", none),
  ("3.2.2", "3.3.1.8", "Ensure net.ipv4.conf.all.accept_redirects is configured", none),
  ("3.2.2", "3.3.1.9", "Ensure net.ipv4.conf.default.accept_redirects is configured", none),
  ("3.2.3", "3.3.1.10", "Ensure net.ipv4.conf.all.secure_redirects is configured", none),
  ("3.2.3", "3.3.1.11", "Ensure net.ipv4.conf.default.secure_redirects is configured", none),
  ("3.2.4", "3.3.1.16", "Ensure net.ipv4.conf.all.log_martians is configured", none),
  ("3.2.4", "3.3.1.17", "Ensure net.ipv4.conf.default.log_martians is configured", none),
  ("3.2.7", "3.3.1.12", "Ensure net.ipv4.conf.all.rp_filter is configured", none),
  ("3.2.7", "3.3.1.13", "Ensure net.ipv4.conf.default.rp_filter is configured", none),
  ("3.2.8", "3.3.1.18", "Ensure net.ipv4.tcp_syncookies is configured", none),
  ("3.4.1.1", "4.1.1", "Ensure firewalld is installed", none),
  ("3.4.1.2", "4.1.3", "Ensure firewalld.service is configured", none),
  ("4.1.1.1", "6.3.1.1", "Ensure auditd packages are installed", none),
  ("4.1.1.2", "6.3.1.4", "Ensure auditd service is enabled and active", none),
  ("4.1.2.1", "6.3.2.1", "Ensure audit log storage size is configured", none),
  ("5.1.8", "2.4.1.9", "Ensure access to crontab is configured", none),
  ("5.2.1", "5.1.1", "Ensure access to /etc/ssh/sshd_config is configured", none),
  ("5.2.6", "5.1.8", "Ensure sshd DisableForwarding is enabled", none),
  ("5.2.7", "5.1.16", "Ensure sshd MaxAuthTries is configured", none),
  ("5.2.10", "5.1.20", "Ensure sshd PermitRootLogin is disabled", none),
  ("5.2.11", "5.1.19", "Ensure sshd PermitEmptyPasswords is disabled", none),
  ("5.2.13", "5.1.7", "Ensure sshd ClientAliveInterval and ClientAliveCountMax are configured", none),
  ("5.2.14", "5.1.12", "Ensure sshd KexAlgorithms is configured", none),
  ("5.2.15", "5.1.6", "Ensure sshd Ciphers are configured", none),
  ("5.2.16", "5.1.15", "Ensure sshd MACs are configured", none),
  ("5.3.1", "5.3.2.2.2", "Ensure password length is configured", none),
  ("5.3.1", "5.3.2.2.3", "Ensure password complexity is configured", none),
  ("5.3.1", "5.3.2.2.4", "Ensure password same consecutive characters is configured", none),
  ("5.3.2", "5.3.2.1.1", "Ensure password failed attempts lockout is configured", none),
  ("5.3.2", "5.3.2.1.2", "Ensure password unlock time is configured", none),
  ("5.3.3", "5.3.2.3.1", "Ensure password history remember is configured", none),
  ("5.4.1.1", "5.4.1.1", "Ensure password expiration is configured", none),
  ("5.4.1.2", "5.4.1.2", "Ensure minimum password days is configured", none),
  ("5.4.1.3", "5.4.1.3", "Ensure password expiration warning days is configured", none),
  ("6.1.2", "7.1.1", "Ensure access to /etc/passwd is configured", none),
  ("6.1.3", "7.1.5", "Ensure access to /etc/shadow is configured", none),
  ("6.1.4", "7.1.3", "Ensure access to /etc/group is configured", none),
  ("6.1.5", "7.1.7", "Ensure access to /etc/gshadow is configured", none)]

/-- The table a profile has for a framework; where it has none, ids stay as they are. -/
def profileRows : ComplianceProfile → ComplianceFramework → Option (List Row)
  | .rhel10, .stig => some rhel10Stig
  | .rhel10, .cis => some rhel10Cis
  | _, _ => none

/-- The mapping a row makes of a canonical one. -/
def Row.apply (row : Row) (mapping : ComplianceMapping) : ComplianceMapping where
  complianceFramework := mapping.complianceFramework
  complianceControlId := row.2.1
  complianceControlTitle := row.2.2.1
  complianceSection := row.2.2.2.or mapping.complianceSection

/-- None, one or many: a canonical id without a row drops, one with several is repeated. -/
def translate (profile : ComplianceProfile) (mapping : ComplianceMapping) : List ComplianceMapping :=
  match profileRows profile mapping.complianceFramework with
  | none => [mapping]
  | some rows => (rows.filter (fun row => row.1 == mapping.complianceControlId)).map (Row.apply · mapping)

def translateAll (profile : ComplianceProfile) (mappings : List ComplianceMapping) : List ComplianceMapping :=
  mappings.flatMap (translate profile)

/-! ## Curated catalogues -/

def cisControl (id title compSection : String) : ComplianceMapping := ⟨.cis, id, title, some compSection⟩

/-- `cis::get_controls` -/
def cisControls : List ComplianceMapping := [
  cisControl "1.5.1" "Ensure address space layout randomisation (ASLR)" "Initial Setup",
  cisControl "1.5.2" "Ensure ptrace_scope is restricted" "Initial Setup",
  cisControl "1.5.3" "Ensure core dumps are restricted" "Initial Setup",
  cisControl "1.5.4" "Ensure kernel pointers are restricted" "Initial Setup",
  cisControl "3.2.1" "Ensure source routed packets are not accepted" "Network Configuration",
  cisControl "3.2.2" "Ensure ICMP redirects are not accepted" "Network Configuration",
  cisControl "3.2.3" "Ensure secure ICMP redirects are not accepted" "Network Configuration",
  cisControl "3.2.4" "Ensure suspicious packets are logged" "Network Configuration",
  cisControl "3.2.7" "Ensure reverse path filtering is enabled" "Network Configuration",
  cisControl "3.2.8" "Ensure TCP SYN cookies is enabled" "Network Configuration",
  cisControl "3.4.1.1" "Ensure firewall is installed" "Network Configuration",
  cisControl "3.4.1.2" "Ensure firewall service is enabled and running" "Network Configuration",
  cisControl "4.1.1.1" "Ensure auditd is installed" "Logging and Auditing",
  cisControl "4.1.1.2" "Ensure auditd service is enabled and running" "Logging and Auditing",
  cisControl "4.1.2.1" "Ensure audit log storage size is configured" "Logging and Auditing",
  cisControl "5.1.8" "Ensure cron is restricted to authorised users" "Access Control",
  cisControl "5.2.1" "Ensure permissions on /etc/ssh/sshd_config are configured" "Access Control",
  cisControl "5.2.4" "Ensure SSH Protocol is set to 2" "Access Control",
  cisControl "5.2.6" "Ensure SSH X11 forwarding is disabled" "Access Control",
  cisControl "5.2.7" "Ensure SSH MaxAuthTries is set to 4 or less" "Access Control",
  cisControl "5.2.10" "Ensure SSH root login is disabled" "Access Control",
  cisControl "5.2.11" "Ensure SSH PermitEmptyPasswords is disabled" "Access Control",
  cisControl "5.2.13" "Ensure SSH Idle Timeout Interval is configured" "Access Control",
  cisControl "5.2.14" "Ensure only strong Key Exchange algorithms are used" "Access Control",
  cisControl "5.2.15" "Ensure only strong Ciphers are used" "Access Control",
  cisControl "5.2.16" "Ensure only strong MAC algorithms are used" "Access Control",
  cisControl "5.3.1" "Ensure password creation requirements are configured" "Access Control",
  cisControl "5.3.2" "Ensure lockout for failed password attempts is configured" "Access Control",
  cisControl "5.3.3" "Ensure password reuse is limited" "Access Control",
  cisControl "6.1.2" "Ensure permissions on /etc/passwd are configured" "System Maintenance",
  cisControl "6.1.3" "Ensure permissions on /etc/shadow are configured" "System Maintenance",
  cisControl "6.1.4" "Ensure permissions on /etc/group are configured" "System Maintenance",
  cisControl "6.1.5" "Ensure permissions on /etc/gshadow are configured" "System Maintenance",
  cisControl "2.1.1" "Ensure xinetd is not installed" "Services",
  cisControl "2.2.2" "Ensure X Window System is not installed" "Services",
  cisControl "2.2.3" "Ensure Avahi Server is not installed" "Services",
  cisControl "2.2.4" "Ensure CUPS is not installed" "Services",
  cisControl "1.6.1.1" "Ensure SELinux or AppArmor is installed" "Mandatory Access Control",
  cisControl "1.6.1.2" "Ensure SELinux is not disabled in bootloader configuration" "Mandatory Access Control",
  cisControl "1.6.1.3" "Ensure SELinux policy is configured" "Mandatory Access Control",
  cisControl "1.6.1.4" "Ensure the SELinux mode is enforcing or AppArmor is enabled" "Mandatory Access Control"]

def control (id title theme : String) : ComplianceMapping := ⟨.iso27001, id, title, some theme⟩

/-- `iso27001::get_controls` -/
def iso27001Controls : List ComplianceMapping := [
  control "5.1" "Policies for information security" "Organizational",
  control "5.2" "Information security roles and responsibilities" "Organizational",
  control "5.3" "Segregation of duties" "Organizational",
  control "5.4" "Management responsibilities" "Organizational",
  control "5.5" "Contact with authorities" "Organizational",
  control "5.6" "Contact with special interest groups" "Organizational",
  control "5.7" "Threat intelligence" "Organizational",
  control "5.8" "Information security in project management" "Organizational",
  control "5.9" "Inventory of information and other associated assets" "Organizational",
  control "5.10" "Acceptable use of information and other associated assets" "Organizational",
  control "5.11" "Return of assets" "Organizational",
  control "5.12" "Classification of information" "Organizational",
  control "5.13" "Labelling of information" "Organizational",
  control "5.14" "Information transfer" "Organizational",
  control "5.15" "Access control" "Organizational",
  control "5.16" "Identity management" "Organizational",
  control "5.17" "Authentication information" "Organizational",
  control "5.18" "Access rights" "Organizational",
  control "5.19" "Information security in supplier relationships" "Organizational",
  control "5.20" "Addressing information security within supplier agreements" "Organizational",
  control "5.21" "Managing information security in the ICT supply chain" "Organizational",
  control "5.22" "Monitoring, review and change management of supplier services" "Organizational",
  control "5.23" "Information security for use of cloud services" "Organizational",
  control "5.24" "Information security incident management planning and preparation" "Organizational",
  control "5.25" "Assessment and decision on information security events" "Organizational",
  control "5.26" "Response to information security incidents" "Organizational",
  control "5.27" "Learning from information security incidents" "Organizational",
  control "5.28" "Collection of evidence" "Organizational",
  control "5.29" "Information security during disruption" "Organizational",
  control "5.30" "ICT readiness for business continuity" "Organizational",
  control "5.31" "Legal, statutory, regulatory and contractual requirements" "Organizational",
  control "5.32" "Intellectual property rights" "Organizational",
  control "5.33" "Protection of records" "Organizational",
  control "5.34" "Privacy and protection of PII" "Organizational",
  control "5.35" "Independent review of information security" "Organizational",
  control "5.36" "Compliance with policies, rules and standards for information security" "Organizational",
  control "5.37" "Documented operating procedures" "Organizational",
  control "6.1" "Screening" "People",
  control "6.2" "Terms and conditions of employment" "People",
  control "6.3" "Information security awareness, education and training" "People",
  control "6.4" "Disciplinary process" "People",
  control "6.5" "Responsibilities after termination or change of employment" "People",
  control "6.6" "Confidentiality or non-disclosure agreements" "People",
  control "6.7" "Remote working" "People",
  control "6.8" "Information security event reporting" "People",
  control "7.1" "Physical security perimeters" "Physical",
  control "7.2" "Physical entry" "Physical",
  control "7.3" "Securing offices, rooms and facilities" "Physical",
  control "7.4" "Physical security monitoring" "Physical",
  control "7.5" "Protecting against physical and environmental threats" "Physical",
  control "7.6" "Working in secure areas" "Physical",
  control "7.7" "Clear desk and clear screen" "Physical",
  control "7.8" "Equipment siting and protection" "Physical",
  control "7.9" "Security of assets off-premises" "Physical",
  control "7.10" "Storage media" "Physical",
  control "7.11" "Supporting utilities" "Physical",
  control "7.12" "Cabling security" "Physical",
  control "7.13" "Equipment maintenance" "Physical",
  control "7.14" "Secure disposal or re-use of equipment" "Physical",
  control "8.1" "User endpoint devices" "Technological",
  control "8.2" "Privileged access rights" "Technological",
  control "8.3" "Information access restriction" "Technological",
  control "8.4" "Access to source code" "Technological",
  control "8.5" "Secure authentication" "Technological",
  control "8.6" "Capacity management" "Technological",
  control "8.7" "Protection against malware" "Technological",
  control "8.8" "Management of technical vulnerabilities" "Technological",
  control "8.9" "Configuration management" "Technological",
  control "8.10" "Information deletion" "Technological",
  control "8.11" "Data masking" "Technological",
  control "8.12" "Data leakage prevention" "Technological",
  control "8.13" "Information backup" "Technological",
  control "8.14" "Redundancy of information processing facilities" "Technological",
  control "8.15" "Logging" "Technological",
  control "8.16" "Monitoring activities" "Technological",
  control "8.17" "Clock synchronization" "Technological",
  control "8.18" "Use of privileged utility programs" "Technological",
  control "8.19" "Installation of software on operational systems" "Technological",
  control "8.20" "Networks security" "Technological",
  control "8.21" "Security of network services" "Technological",
  control "8.22" "Segregation of networks" "Technological",
  control "8.23" "Web filtering" "Technological",
  control "8.24" "Use of cryptography" "Technological",
  control "8.25" "Secure development life cycle" "Technological",
  control "8.26" "Application security requirements" "Technological",
  control "8.27" "Secure system architecture and engineering principles" "Technological",
  control "8.28" "Secure coding" "Technological",
  control "8.29" "Security testing in development and acceptance" "Technological",
  control "8.30" "Outsourced development" "Technological",
  control "8.31" "Separation of development, test and production environments" "Technological",
  control "8.32" "Change management" "Technological",
  control "8.33" "Test information" "Technological",
  control "8.34" "Protection of information systems during audit testing" "Technological"]

def curatedControls : ComplianceFramework → Option (List ComplianceMapping)
  | .cis => some cisControls
  | .iso27001 => some iso27001Controls
  | _ => none

theorem curatedControls_framework {framework : ComplianceFramework} {m : ComplianceMapping}
    (h : m ∈ (curatedControls framework).getD []) : m.complianceFramework = framework := by
  have hcis : ∀ m ∈ cisControls, m.complianceFramework = .cis := by decide
  have hiso : ∀ m ∈ iso27001Controls, m.complianceFramework = .iso27001 := by decide
  cases framework with
  | cis => exact hcis m h
  | iso27001 => exact hiso m h
  | _ => cases h

/-! ## What a translation does -/

/-- A translation keeps the framework. -/
theorem translate_framework {profile : ComplianceProfile} {m m' : ComplianceMapping} (h : m' ∈ translate profile m) :
    m'.complianceFramework = m.complianceFramework := by
  unfold translate at h
  split at h
  · rw [List.mem_singleton.mp h]
  · obtain ⟨row, _, rfl⟩ := List.mem_map.mp h
    rfl

/-- The ids a mapping translates to depend on its framework and id alone. -/
theorem translate_ids {profile : ComplianceProfile} {m m' : ComplianceMapping}
    (hf : m.complianceFramework = m'.complianceFramework) (hi : m.complianceControlId = m'.complianceControlId) :
    (translate profile m).map (·.complianceControlId) = (translate profile m').map (·.complianceControlId) := by
  unfold translate
  rw [hf, hi]
  split
  · simp [hi]
  · simp [Function.comp_def, Row.apply]

end LinuxHardener.Compliance
