import LinuxHardener.Core.ConfigLayers
import LinuxHardener.Lib.TableTree

/-
  Editing one entry of a configuration document (`hardener-cli`, `commands/exception/document.rs`,
  `commands/scope.rs`).

  A document is what `toml_edit` parses it to: tables in tables with what their headers say, and
  values with the comments and spaces about them. An inline table or an array of tables is a value
  (`as_table_mut` gives nothing for it). A document that was parsed prints as the text it was.

  Correspondence (Rust ↔ Lean):
    `toml_edit::{Table, value}`                  ↔ `Header`, `value`
    `upsert_exception`, `remove_exception`       ↔ `upsertException`, `removeException`
    `section_table`, `exceptions_table`          ↔ `sectionTable`, `exceptionsTable`
    `upsert_exclusion`, `remove_exclusion`       ↔ `upsertExclusion`, `removeExclusion`
    `framework_path`, `table_at`                 ↔ `frameworkPath`, `TableTree.editAt`
    `Deserialize` of `PolicyException`, `ScopeExclusion` ↔ `readException`, `readExclusion`

  What is proved:
    1. `readException_entry`, `readExclusion_entry` — an entry reads back as what it was written
       from.
    2. `removeException_eq` — the exceptions' own pruning is the one up a path.
    3. `edits_one_entry` — an edit changes one entry, and undoes itself exactly when it emptied no
       table that was there.
-/
namespace LinuxHardener.Commands.ConfigDocument

open LineText (Chars)
open Core (PolicyException)
open Core.ConfigLoader (ScopeExclusion)
open TableTree (get set remove at? editAt removeKey removePresent prune upsertAt removeAt Roomy SameBeside)

structure Header where
  implicit : Bool
  dotted : Bool
  decor : Chars
  deriving DecidableEq, Repr

/-- `Table::new` -/
def Header.new : Header := ⟨false, false, []⟩

def Header.setImplicit (header : Header) (implicit : Bool) : Header := { header with implicit }

inductive Value where
  | string (text : Chars)
  | boolean (b : Bool)
  | strings (texts : List Chars)
  | other (text : Chars)
  deriving DecidableEq, Repr

structure Written where
  value : Value
  decor : Chars
  deriving DecidableEq, Repr

abbrev Item : Type := TableTree.Item Chars Header Written

abbrev DocumentMut : Type := TableTree.Entries Chars Header Written

def value (v : Value) : Item := .leaf ⟨v, []⟩

def notTable (path : List Chars) : Chars :=
  '[' :: ".".toList.intercalate path ++ "] is not a table in this configuration file".toList

/-! ## Entries -/

/-- The optional fields, written only when set. -/
def optionalFields (fields : List (Chars × Option Chars)) : DocumentMut :=
  fields.filterMap fun field => field.2.map fun text => (field.1, value (.string text))

def exceptionEntry (exception : PolicyException) : Item :=
  .table Header.new
    ([("value".toList, value (.string exception.value)), ("allowed".toList, value (.boolean exception.allowed)),
        ("reason".toList, value (.string exception.reason))] ++
      optionalFields [("approved_by".toList, exception.approvedBy), ("approved_date".toList, exception.approvedDate),
        ("ticket".toList, exception.ticket), ("expires".toList, exception.expires)])

def exclusionEntry (exclusion : ScopeExclusion) : Item :=
  .table Header.new
    ([("reason".toList, value (.string exclusion.reason))] ++
      optionalFields [("approved_by".toList, exclusion.approvedBy), ("approved_date".toList, exclusion.approvedDate),
        ("ticket".toList, exclusion.ticket), ("review_by".toList, exclusion.reviewBy)] ++
      if exclusion.hosts = [] then [] else [("hosts".toList, value (.strings exclusion.hosts))])

def asString : Item → Option Chars
  | .leaf ⟨.string text, _⟩ => some text
  | _ => none

def asBool : Item → Option Bool
  | .leaf ⟨.boolean b, _⟩ => some b
  | _ => none

def asStrings : Item → Option (List Chars)
  | .leaf ⟨.strings texts, _⟩ => some texts
  | _ => none

/-- A field that may be absent: `missing` then, and else what it reads as. -/
def fieldOr {α : Type} (missing : α) (read : Item → Option α) (entries : DocumentMut) (name : Chars) : Option α :=
  match get entries name with
  | none => some missing
  | some item => read item

def readOptional (entries : DocumentMut) (name : Chars) : Option (Option Chars) :=
  fieldOr none (fun item => (asString item).map some) entries name

def readException : Item → Option PolicyException
  | .leaf _ => none
  | .table _ entries => do
    let value ← (get entries "value".toList).bind asString
    let allowed ← (get entries "allowed".toList).bind asBool
    let reason ← (get entries "reason".toList).bind asString
    let approvedBy ← readOptional entries "approved_by".toList
    let approvedDate ← readOptional entries "approved_date".toList
    let ticket ← readOptional entries "ticket".toList
    let expires ← readOptional entries "expires".toList
    return { value, allowed, reason, approvedBy, approvedDate, ticket, expires }

-- `#[serde(default)]`: every field may be absent
def readExclusion : Item → Option ScopeExclusion
  | .leaf _ => none
  | .table _ entries => do
    let reason ← fieldOr [] asString entries "reason".toList
    let approvedBy ← readOptional entries "approved_by".toList
    let approvedDate ← readOptional entries "approved_date".toList
    let ticket ← readOptional entries "ticket".toList
    let reviewBy ← readOptional entries "review_by".toList
    let hosts ← fieldOr [] asStrings entries "hosts".toList
    return { reason, approvedBy, approvedDate, ticket, reviewBy, hosts }

theorem readException_entry (exception : PolicyException) : readException (exceptionEntry exception) = some exception := by
  obtain ⟨value, allowed, reason, approvedBy, approvedDate, ticket, expires⟩ := exception
  cases approvedBy <;> cases approvedDate <;> cases ticket <;> cases expires <;> rfl

theorem readExclusion_entry (exclusion : ScopeExclusion) : readExclusion (exclusionEntry exclusion) = some exclusion := by
  obtain ⟨reason, approvedBy, approvedDate, ticket, reviewBy, hosts⟩ := exclusion
  cases approvedBy <;> cases approvedDate <;> cases ticket <;> cases reviewBy <;> cases hosts <;> rfl

/-! ## Exceptions -/

def sectionTable (section' : Chars) : Chars × Header := (section', Header.new)

/-- The level below a section, which has no header line of its own when it is made. -/
def exceptionsTable : Chars × Header := ("exceptions".toList, Header.new.setImplicit true)

def exceptionsPath (section' : Chars) : List (Chars × Header) := [sectionTable section', exceptionsTable]

def upsertException (document : DocumentMut) (section' key : Chars) (exception : PolicyException) : Except Chars DocumentMut :=
  upsertAt notTable (exceptionsPath section') key (exceptionEntry exception) document

def noException (section' key : Chars) : Chars :=
  "No exception '".toList ++ key ++ "' in [".toList ++ section' ++ ".exceptions] to remove.".toList

def removeException (document : DocumentMut) (section' key : Chars) : Except Chars DocumentMut := do
  let exceptions ← editAt notTable (removePresent (noException section' key) key) [] (exceptionsPath section') document
  if !exceptions.1 then return exceptions.2
  let table ← editAt notTable (removeKey exceptionsTable.1) [] [sectionTable section'] exceptions.2
  return if table.1 then remove table.2 section' else table.2

/-- Its two levels are pruned one after the other. -/
theorem removeException_eq (document : DocumentMut) (section' key : Chars) :
    removeException document section' key =
      removeAt notTable (noException section' key) (exceptionsPath section') key document := by
  rw [removeException, removeAt]
  cases editAt notTable (removePresent (noException section' key) key) [] (exceptionsPath section') document with
  | error e => rfl
  | ok exceptions =>
    obtain ⟨nowEmpty, es⟩ := exceptions
    cases nowEmpty with
    | false => rfl
    | true => exact (TableTree.prune_two exceptionsTable (sectionTable section') es).symm

/-! ## Exclusions -/

/-- The levels of `SCOPE_PATH` and the framework, none of which has a header line when it is made. -/
def frameworkPath (framework : Chars) : List (Chars × Header) :=
  ["compliance".toList, "not_applicable".toList, framework].map fun name => (name, Header.new.setImplicit true)

def upsertExclusion (document : DocumentMut) (framework control : Chars) (exclusion : ScopeExclusion) : Except Chars DocumentMut :=
  upsertAt notTable (frameworkPath framework) control (exclusionEntry exclusion) document

def noExclusion (framework control : Chars) : Chars :=
  "No exclusion of '".toList ++ control ++ "' under '".toList ++ framework ++ "' to withdraw.".toList

def removeExclusion (document : DocumentMut) (framework control : Chars) : Except Chars DocumentMut :=
  removeAt notTable (noExclusion framework control) (frameworkPath framework) control document

/-! ## One entry -/

/-- An edit of the entry `key` below `path`: what was written is read back, everything else stays,
what is not there cannot be removed, and removing what was added leaves the document as it was. -/
structure EditsOne {α : Type} (path : List (Chars × Header)) (key : Chars) (read : Item → Option α) (written : α)
    (document : DocumentMut) (upsert : Except Chars DocumentMut) (removeFrom : DocumentMut → Except Chars DocumentMut) : Prop where
  readsBack : ∀ edited, upsert = .ok edited → (at? edited (path.map Prod.fst ++ [key])).bind read = some written
  levels : ∀ edited, upsert = .ok edited → SameBeside key path document edited
  beside : ∀ edited q, upsert = .ok edited → ¬ path.map Prod.fst ++ [key] <+: q → ¬ q <+: path.map Prod.fst ++ [key] →
    at? edited q = at? document q
  absent : at? document (path.map Prod.fst ++ [key]) = none → ∃ e, removeFrom document = .error e
  undone : ∀ edited, upsert = .ok edited → at? document (path.map Prod.fst ++ [key]) = none → removeFrom edited = .ok document

theorem editsOne_iff {α : Type} {path : List (Chars × Header)} {key missing : Chars} {read : Item → Option α} {written : α} {item : Item}
    (hread : read item = some written) (document : DocumentMut) :
    EditsOne path key read written document (upsertAt notTable path key item document) (removeAt notTable missing path key) ↔
      Roomy path document := by
  constructor
  · intro h
    by_contra hroomy
    obtain ⟨habsent, edited, hadd⟩ := TableTree.upsertAt_of_not_roomy notTable key item hroomy
    exact hroomy ((TableTree.removeAt_upsertAt hadd habsent).mp (h.undone edited hadd habsent))
  · intro hroomy
    have hbeside : ∀ edited, upsertAt notTable path key item document = .ok edited →
        at? edited (path.map Prod.fst ++ [key]) = some item ∧ SameBeside key path document edited :=
      fun _ hadd => TableTree.sameBeside_upsertAt hadd
    refine ⟨fun edited hadd => ?_, fun edited hadd => (hbeside edited hadd).2, fun edited q hadd => ?_, TableTree.removeAt_absent,
      fun edited hadd habsent => (TableTree.removeAt_upsertAt hadd habsent).mpr hroomy⟩
    · rw [(hbeside edited hadd).1, Option.bind_some, hread]
    · exact TableTree.at_beside (hbeside edited hadd).2

/-- Whichever entry of whichever document is edited. -/
theorem edits_one_entry (document : DocumentMut) (section' key framework control : Chars) (exception : PolicyException)
    (exclusion : ScopeExclusion) :
    (EditsOne (exceptionsPath section') key readException exception document (upsertException document section' key exception)
        (fun edited => removeException edited section' key) ↔ Roomy (exceptionsPath section') document) ∧
      (EditsOne (frameworkPath framework) control readExclusion exclusion document
        (upsertExclusion document framework control exclusion) (fun edited => removeExclusion edited framework control) ↔
        Roomy (frameworkPath framework) document) := by
  have hremove : (fun edited => removeException edited section' key) =
      removeAt notTable (noException section' key) (exceptionsPath section') key :=
    funext fun edited => removeException_eq edited section' key
  rw [hremove]
  exact ⟨editsOne_iff (readException_entry exception) document, editsOne_iff (readExclusion_entry exclusion) document⟩

def sectionAlone (name : Chars) : DocumentMut := [(name, .table Header.new [])]

/-- A section with a header line and nothing under it goes with the entry that was added to it. -/
theorem empty_section_lost :
    ¬ EditsOne (exceptionsPath "ssh".toList) "PermitRootLogin".toList readException
        ⟨"yes".toList, true, "migration".toList, none, none, none, none⟩ (sectionAlone "ssh".toList)
        (upsertException (sectionAlone "ssh".toList) "ssh".toList "PermitRootLogin".toList
          ⟨"yes".toList, true, "migration".toList, none, none, none, none⟩)
        (fun edited => removeException edited "ssh".toList "PermitRootLogin".toList) ∧
      ¬ EditsOne (frameworkPath "iso27001".toList) "7.1".toList readExclusion
        ⟨"no premises".toList, none, none, none, none, []⟩ (sectionAlone "compliance".toList)
        (upsertExclusion (sectionAlone "compliance".toList) "iso27001".toList "7.1".toList
          ⟨"no premises".toList, none, none, none, none, []⟩)
        (fun edited => removeExclusion edited "iso27001".toList "7.1".toList) := by
  constructor
  · intro h
    have hkept := h.undone _ rfl rfl
    have hgone : Except.ok (sectionAlone "ssh".toList) = (.ok [] : Except Chars DocumentMut) := hkept.symm.trans rfl
    exact List.cons_ne_nil _ _ (Except.ok.inj hgone)
  · intro h
    have hkept := h.undone _ rfl rfl
    have hgone : Except.ok (sectionAlone "compliance".toList) = (.ok [] : Except Chars DocumentMut) := hkept.symm.trans rfl
    exact List.cons_ne_nil _ _ (Except.ok.inj hgone)

end LinuxHardener.Commands.ConfigDocument
