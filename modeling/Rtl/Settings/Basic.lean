import Rtl.Dialect
import Rtl.Layout
import Rtl.Text.Blank

namespace Rtl

-- How members of interfaces are named.
structure SynthesisSettings where
  separator : String
deriving DecidableEq, Repr

namespace SynthesisSettings

def default : SynthesisSettings := ⟨"_"⟩

end SynthesisSettings

structure OutputSettings where
  dialect : Dialect
  indent : String
  timeUnit : String
  reserved : List String
deriving DecidableEq, Repr

namespace OutputSettings

def default : OutputSettings := ⟨.vhdl, "    ", "ns", []⟩

end OutputSettings

structure Settings where
  synthesis : SynthesisSettings
  output : OutputSettings
deriving DecidableEq, Repr

-- What a setting may not be.
inductive InvalidSetting where
  | emptySeparator
  | indent
  | timeUnit (given : String)
  | reservedWord (word : String)
deriving DecidableEq, Repr

-- Why there are no settings: the file cannot be read, it is not in the format
-- of a settings file, or a setting is invalid.
inductive SettingsError where
  | unreadable
  | malformed
  | invalid (cause : InvalidSetting)
deriving DecidableEq, Repr

namespace Settings

def default : Settings := ⟨.default, .default⟩

def timeUnits : List String := ["fs", "ps", "ns", "us", "ms", "sec"]

end Settings

namespace InvalidSetting

def message : InvalidSetting → String
  | .emptySeparator => "synth.name_separator must not be empty"
  | .indent => "codegen.indent may only contain spaces and tabs"
  | .timeUnit given =>
      "codegen.wait_time_unit must be one of " ++ String.intercalate ", " Settings.timeUnits ++
        ", got '" ++ given ++ "'"
  | .reservedWord word => "invalid reserved word '" ++ word ++ "'"

end InvalidSetting

namespace SettingsError

def message : SettingsError → String
  | .unreadable => "failed to read configuration"
  | .malformed => "failed to parse configuration"
  | .invalid cause => "validation error: " ++ cause.message

end SettingsError

namespace Settings

def isReservable (word : String) : Bool := !word.isEmpty && !word.toList.any Text.isBlank

-- Settings in which nothing is invalid; of several faults the first one in
-- this order counts.
def validate (settings : Settings) : Except SettingsError Settings := do
  if settings.synthesis.separator.isEmpty then throw (.invalid .emptySeparator)
  if settings.output.indent.toList.any fun c => c != ' ' && c != '\t' then
    throw (.invalid .indent)
  if !timeUnits.contains settings.output.timeUnit then
    throw (.invalid (.timeUnit settings.output.timeUnit))
  match settings.output.reserved.find? fun word => !isReservable word with
  | some word => throw (.invalid (.reservedWord word))
  | none => return settings

end Settings

namespace OutputSettings

-- A scope with the keywords of the dialect and the reserved words.
def scope (settings : OutputSettings) : Scope := settings.dialect.baseScope settings.reserved

def layout (settings : OutputSettings) : Layout := settings.dialect.layout settings.indent

end OutputSettings

end Rtl
