import Rtl.Settings.Basic
import Rtl.Toml.Parser

namespace Rtl

namespace Toml.Entry

def text? : Entry → Option String
  | .text value => some value
  | _ => none

def items? : Entry → Option (List Entry)
  | .array items => some items
  | .tables items => some items
  | _ => none

-- The entries for some keys. An array gives them by position; a moment counts as
-- a table without any of them.
def fields? (keys : List String) : Entry → Option (List (Option Entry))
  | .table _ fields => some (keys.map fun key => fields.lookup key)
  | .moment => some (keys.map fun _ => none)
  | .array items => some (keys.zipIdx.map fun (_, position) => items[position]?)
  | .tables items => some (keys.zipIdx.map fun (_, position) => items[position]?)
  | _ => none

-- An empty table or array, as it may follow the name of a dialect.
def isEmptyGroup : Entry → Bool
  | .table _ [] => true
  | .array [] => true
  | _ => false

end Toml.Entry

namespace Settings

open Toml (Entry)

def given {α : Type} (read : Entry → Option α) (default : α) : Option Entry → Option α
  | none => some default
  | some entry => read entry

def dialectOfName? : String → Option Dialect
  | "vhdl" => some .vhdl
  | "sim_model" => some .simModel
  | _ => none

-- A dialect by its name, or by a table with that name as its only key.
def dialect? : Entry → Option Dialect
  | .text name => dialectOfName? name
  | .table _ [(name, entry)] => if entry.isEmptyGroup then dialectOfName? name else none
  | _ => none

-- Reserved words: one text, or an array of texts.
def reserved? (entry : Entry) : Option (List String) :=
  match entry with
  | .text word => some [word]
  | other => do (← other.items?).mapM Entry.text?

def synthesis? (entry : Entry) : Option SynthesisSettings := do
  let [separator] ← entry.fields? ["name_separator"] | none
  return { separator := ← given Entry.text? SynthesisSettings.default.separator separator }

def output? (entry : Entry) : Option OutputSettings := do
  let [dialect, indent, timeUnit, reserved] ←
    entry.fields? ["dialect", "indent", "wait_time_unit", "reserved"] | none
  return {
    dialect := ← given dialect? OutputSettings.default.dialect dialect
    indent := ← given Entry.text? OutputSettings.default.indent indent
    timeUnit := ← given Entry.text? OutputSettings.default.timeUnit timeUnit
    reserved := ← given reserved? OutputSettings.default.reserved reserved }

def ofFields? (fields : Toml.Fields) : Option Settings := do
  return {
    synthesis := ← given synthesis? .default (fields.lookup "synth")
    output := ← given output? .default (fields.lookup "codegen") }

def ofText (text : String) : Except SettingsError Settings :=
  match (Toml.parse? text).bind ofFields? with
  | some settings => settings.validate
  | none => .error .malformed

-- What is found in the place of the settings file.
inductive Source where
  | nothing
  | directory
  | file (bytes : ByteArray)

-- Where there is no file the defaults count.
def load : Source → Except SettingsError Settings
  | .nothing => .ok .default
  | .directory => .error .unreadable
  | .file bytes =>
      match String.fromUTF8? bytes with
      | some text => ofText text
      | none => .error .unreadable

end Settings

end Rtl
