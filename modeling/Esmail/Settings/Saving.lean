/-
# A configuration, while it is saved

`Config::save` and `Config::load` of `config.rs`, all of the configuration.  A save rewrites `config.toml`
in place, and `load` takes whatever it cannot read for a first start.  So between the step that empties the
file and the one that writes its last byte, the accounts are in the file only as far as they have been
written again.

`load_savedUpTo_kept` has three cases of a save that came through some of its steps.  Before the file is
opened the previous configuration is still there; once its last byte is written, the new one is; and where
no account has been written again, neither is.  In between nothing general holds: a prefix of a document may
be a document, and whether one that lacks the last keys reads as the whole is a matter of the defaults these
have, so that what is loaded there is what the parser makes of it.  The parser and the printer are
parameters; all that is asked of them is that the two documents read back.

`WindowState::save` and `Settings::save` write another file and rename it: `load_replaced` says that of
theirs there is always a whole one.
-/
import Esmail.Library.FileOps
import Esmail.Settings.Keyring

namespace Esmail.Settings

open FileOps
open Disk (alice aliceFile parseAlice parseAlice_nil)

/-! ## 1. All of the configuration -/

/-- `ThemeMode`. -/
inductive ThemeMode
  | dark
  | light
  | system
  deriving DecidableEq, Repr

/-- `WindowGeometry`. -/
structure WindowGeometry where
  x : Float32
  y : Float32
  width : Float32
  height : Float32

/-- `Config`, with what it has of the window and of the folders. -/
structure SavedConfig extends settings : Config where
  theme : ThemeMode := .system
  window : Option WindowGeometry := none
  collapsedFolders : List String := []

/-- The files of the configuration directory that are written below. -/
inductive ConfigFile
  | config
  | settings
  | settingsTemp
  deriving DecidableEq, Repr

variable (toml : SavedConfig → List UInt8) (parse : List UInt8 → Option SavedConfig)

/-- `Config::load`: `parse` is `read_to_string` and `toml::from_str`, on the bytes of the file. -/
def load (files : FileMap ConfigFile) : SavedConfig :=
  match files .config with
  | some bytes => (parse bytes).getD {}
  | none => {}

/-- The steps of `Config::save`. -/
def saveSteps (config : SavedConfig) : List (Op ConfigFile) :=
  .mkdir :: write .config (toml config)

/-- The file as it is when the save has come through `k` of its steps. -/
def savedUpTo (k : Nat) (config : SavedConfig) (files : FileMap ConfigFile) : FileMap ConfigFile :=
  cut (saveSteps toml config) k files

/-! ## 2. What is loaded after a save that was cut off -/

/-- Up to the step that opens the file, nothing has changed. -/
theorem savedUpTo_unopened {k : Nat} (hk : k ≤ 1) (config : SavedConfig) (files : FileMap ConfigFile) :
    savedUpTo toml k config files = files := by
  match k, hk with
  | 0, _ | 1, _ => rfl

/-- From then on, the file has as much as was written. -/
theorem savedUpTo_opened (k : Nat) (config : SavedConfig) (files : FileMap ConfigFile) :
    savedUpTo toml (k + 2) config files =
      Function.update files .config (some ((toml config).take k)) := by
  rw [savedUpTo, saveSteps, cut_cons_succ, cut_write]
  rfl

theorem load_opened (k : Nat) (config : SavedConfig) (files : FileMap ConfigFile) :
    load parse (savedUpTo toml (k + 2) config files) = (parse ((toml config).take k)).getD {} := by
  rw [savedUpTo_opened, load, Function.update_self]

/-- Where none of the accounts has been written again, none is loaded.  A file that was only opened is such
a one. -/
theorem accounts_load_opened {k : Nat} (config : SavedConfig)
    (hnone : ∀ c, parse ((toml config).take k) = some c → c.accounts = []) (files : FileMap ConfigFile) :
    (load parse (savedUpTo toml (k + 2) config files)).accounts = [] := by
  rw [load_opened]
  cases hparse : parse ((toml config).take k) with
  | none => rfl
  | some c => exact hnone c hparse

/-- A save that fails is one that was cut off; and one that succeeds was not. -/
theorem saveConfig_cut (text : Config → List UInt8) (f : Faults) (written : Nat) (d : Disk)
    (config : Config) :
    ∃ k, (d.saveConfig text f written config).2.file =
      cut (.mkdir :: write .config (text config)) k (fun _ : ConfigFile => d.file) .config := by
  cases hsave : f.save with
  | none =>
    refine ⟨(text config).length + 2, ?_⟩
    rw [cut_cons_succ, cut_write]
    simp [Disk.saveConfig, hsave]
  | some fault =>
    cases fault with
    | write error =>
      refine ⟨written + 2, ?_⟩
      rw [cut_cons_succ, cut_write]
      simp [Disk.saveConfig, hsave]
    | _ => exact ⟨0, by simp [Disk.saveConfig, hsave]⟩

/-- What is loaded after a save that came through `k` of its steps: the previous configuration as long as
the file has not been opened, the new one once all of it is written, and neither of them while no account
has been written again. -/
theorem load_savedUpTo_kept (old new : SavedConfig) (files : FileMap ConfigFile)
    (hold : parse (toml old) = some old) (hnew : parse (toml new) = some new)
    (hfile : files .config = some (toml old)) (k : Nat) :
    (k ≤ 1 → load parse (savedUpTo toml k new files) = old) ∧
      ((toml new).length + 2 ≤ k → load parse (savedUpTo toml k new files) = new) ∧
      (2 ≤ k → (∀ c, parse ((toml new).take (k - 2)) = some c → c.accounts = []) →
        old.accounts ≠ [] → new.accounts ≠ [] →
        load parse (savedUpTo toml k new files) ≠ old ∧ load parse (savedUpTo toml k new files) ≠ new) := by
  refine ⟨fun hunopened => ?_, fun hall => ?_, fun hopened hnone holds hnews => ?_⟩
  · rw [savedUpTo_unopened toml hunopened, load, hfile]
    simp [hold]
  · obtain ⟨written, rfl⟩ : ∃ n, k = n + 2 := ⟨k - 2, by omega⟩
    rw [load_opened, List.take_of_length_le (by omega), hnew]
    rfl
  · obtain ⟨written, rfl⟩ : ∃ n, k = n + 2 := ⟨k - 2, by omega⟩
    have hforgotten := accounts_load_opened toml parse new hnone files
    exact ⟨fun h => holds (h ▸ hforgotten), fun h => hnews (h ▸ hforgotten)⟩

/-- The configuration with that account. -/
def aliceSaved : SavedConfig := { accounts := [alice] }

/-- How its file is read.  It is the real parser on the whole document and on the empty file; the prefixes
in between are not its matter. -/
def parseSaved (bytes : List UInt8) : Option SavedConfig :=
  (parseAlice bytes).map fun settings => { settings }

/-- The directory with it. -/
def aliceFiles : FileMap ConfigFile
  | .config => some aliceFile
  | _ => none

theorem parseSaved_aliceFile : parseSaved aliceFile = some aliceSaved := by
  rw [parseSaved, parseAlice, if_pos rfl]
  rfl

theorem parseSaved_nil (c : SavedConfig) (h : parseSaved [] = some c) : c.accounts = [] := by
  obtain ⟨settings, hsettings, rfl⟩ := Option.map_eq_some_iff.mp h
  exact parseAlice_nil settings hsettings

/-- A second account, and the configuration with both. -/
def bob : AccountConfig :=
  { id := "bob@example.com@imap.example.com", displayName := "Bob", imapHost := "imap.example.com",
    imapPort := 993, smtpHost := "smtp.example.com", username := "bob@example.com" }

def bothSaved : SavedConfig := { accounts := [alice, bob] }

/-- What its document has more. -/
def bobTable : List UInt8 :=
  ("\n[[accounts]]\nid = \"bob@example.com@imap.example.com\"\ndisplay_name = \"Bob\"\n" ++
    "imap_host = \"imap.example.com\"\nimap_port = 993\nimap_tls = \"Ssl\"\n" ++
    "smtp_host = \"smtp.example.com\"\nsmtp_port = 465\nsmtp_tls = \"Ssl\"\n" ++
    "username = \"bob@example.com\"\nauth = \"Password\"\n").toList.map fun c =>
      c.toNat.toUInt8

/-- The printer on the two configurations, and the parser on the two documents and the empty file. -/
def tomlBoth (config : SavedConfig) : List UInt8 :=
  match config.accounts with
  | [_] => aliceFile
  | _ => aliceFile ++ bobTable

def parseBoth (bytes : List UInt8) : Option SavedConfig :=
  if bytes = aliceFile ++ bobTable then some bothSaved else parseSaved bytes

theorem bobTable_ne_nil : bobTable ≠ [] := by
  unfold bobTable
  rw [ne_eq, List.map_eq_nil_iff, String.toList_append, List.append_eq_nil_iff]
  rintro ⟨-, hlast⟩
  rw [String.toList_ofList] at hlast
  cases hlast

theorem parseBoth_aliceSaved : parseBoth (tomlBoth aliceSaved) = some aliceSaved := by
  have hfile : tomlBoth aliceSaved = aliceFile := rfl
  have hne : aliceFile ≠ aliceFile ++ bobTable := fun h => bobTable_ne_nil (List.self_eq_append_right.mp h)
  rw [hfile, parseBoth, if_neg hne, parseSaved_aliceFile]

theorem parseBoth_bothSaved : parseBoth (tomlBoth bothSaved) = some bothSaved := by
  have hfile : tomlBoth bothSaved = aliceFile ++ bobTable := rfl
  rw [hfile, parseBoth, if_pos rfl]

theorem parseBoth_nil (c : SavedConfig) (h : parseBoth [] = some c) : c.accounts = [] := by
  have hne : ([] : List UInt8) ≠ aliceFile ++ bobTable := fun h =>
    bobTable_ne_nil (List.append_eq_nil_iff.mp h.symm).2
  rw [parseBoth, if_neg hne] at h
  exact parseSaved_nil c h

/-- The second account is added and saved.  A save that fails before the file is opened leaves the one
account, a whole one leaves both; and one that is cut off when the file has just been opened leaves
neither configuration. -/
theorem load_savedUpTo_kept_both :
    load parseBoth (savedUpTo tomlBoth 1 bothSaved aliceFiles) = aliceSaved ∧
      load parseBoth (savedUpTo tomlBoth ((tomlBoth bothSaved).length + 2) bothSaved aliceFiles) =
        bothSaved ∧
      load parseBoth (savedUpTo tomlBoth 2 bothSaved aliceFiles) ≠ aliceSaved ∧
      load parseBoth (savedUpTo tomlBoth 2 bothSaved aliceFiles) ≠ bothSaved := by
  have h := load_savedUpTo_kept tomlBoth parseBoth aliceSaved bothSaved aliceFiles
    parseBoth_aliceSaved parseBoth_bothSaved rfl
  have hnone : ∀ c, parseBoth ((tomlBoth bothSaved).take (2 - 2)) = some c → c.accounts = [] := by
    rw [Nat.sub_self, List.take_zero]
    exact parseBoth_nil
  have hold : aliceSaved.accounts ≠ [] := List.cons_ne_nil _ _
  have hnew : bothSaved.accounts ≠ [] := List.cons_ne_nil _ _
  have hneither := (h 2).2.2 (Nat.le_refl 2) hnone hold hnew
  exact ⟨(h 1).1 (Nat.le_refl 1), (h _).2.1 (Nat.le_refl _), hneither⟩

/-- It is saved again, and the process is killed when the file has just been opened: the account is
gone. -/
theorem load_emptied_alice :
    ¬∀ (toml : SavedConfig → List UInt8) (parse : List UInt8 → Option SavedConfig)
      (old new : SavedConfig) (files : FileMap ConfigFile) (k : Nat),
      parse (toml old) = some old → parse (toml new) = some new →
      files .config = some (toml old) →
      load parse (savedUpTo toml k new files) = old ∨ load parse (savedUpTo toml k new files) = new := by
  intro hall
  have h := hall (fun _ => aliceFile) parseSaved aliceSaved aliceSaved aliceFiles (0 + 2)
    parseSaved_aliceFile parseSaved_aliceFile rfl
  have hnone := accounts_load_opened (k := 0) (fun _ => aliceFile) parseSaved aliceSaved parseSaved_nil
    aliceFiles
  rw [or_self_iff.mp h] at hnone
  cases hnone

/-- What `Settings::save` does: the settings there were are read, or the new ones. -/
theorem load_replaced (bytes : List UInt8) (k : Nat) (files : FileMap ConfigFile) :
    cut (.mkdir :: replace .settingsTemp .settings bytes) k files .settings = files .settings ∨
      cut (.mkdir :: replace .settingsTemp .settings bytes) k files .settings = some bytes := by
  cases k with
  | zero => exact .inl rfl
  | succ k =>
    rw [cut_cons_succ, cut_replace (by decide)]
    split
    · exact .inr rfl
    · exact .inl rfl

end Esmail.Settings
