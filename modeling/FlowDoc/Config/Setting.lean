import FlowDoc.Config.Basic
import FlowDoc.Text.Ordered

/-!
# Settings

A configuration is written as a tree of settings. All settings are optional; a setting that is not
known, or of the wrong kind, is refused.

## Main definitions

* `Setting`: a value in a written configuration.
* `Config.ofSettings?`: the configuration that settings make up.
-/

namespace FlowDoc

/-- A value in a written configuration. -/
inductive Setting where
  /-- A text. -/
  | text (s : String)
  /-- A date, a time of day or both, in its standard text. -/
  | moment (s : String)
  /-- Settings under their keys. -/
  | table (entries : List (String × Setting))
  /-- A table that also stands for nothing, because it has no entries. -/
  | emptyTable
  /-- A list that stands for nothing, because it has no items. -/
  | emptyList
  /-- An explicit nothing. -/
  | nothing
  /-- A value that no setting takes. -/
  | other
deriving Repr, Inhabited

namespace Setting

/-- The table with these entries, where one without entries also stands for nothing. -/
def ofEntries : List (String × Setting) → Setting
  | [] => .emptyTable
  | entries => .table entries

/-- Whether a setting stands for nothing. -/
def isVoid : Setting → Bool
  | .emptyTable | .emptyList | .nothing => true
  | _ => false

/-- The key of the only entry that a moment has as a table. -/
def momentKey : String := "$__toml_private_datetime"

/-- The entries of a table; a moment counts as a table of its text. -/
def entries? : Setting → Option (List (String × Setting))
  | .table entries => some entries
  | .emptyTable => some []
  | .moment s => some [(momentKey, .text s)]
  | _ => none

/-- The text of a setting. -/
def text? : Setting → Option String
  | .text s => some s
  | _ => none

/-- The word that a setting chooses: a text, or the only key of a table that has nothing under
it. -/
def word? : Setting → Option String
  | .text s => some s
  | .table [(word, value)] => if value.isVoid then some word else none
  | _ => none

/-- The values of a table, in the order of their keys. -/
def table? {α : Type} (value? : Setting → Option α) (setting : Setting) :
    Option (List (String × α)) := do
  let entries ← setting.entries?
  return Text.byKey (← entries.mapM fun (key, setting) => do return (key, ← value? setting))

/-- The text of a setting that may be an explicit nothing. -/
def nullableText? : Setting → Option (Option String)
  | .nothing => some none
  | setting => some <$> setting.text?

end Setting

namespace Config

/-- The configuration with one more setting. -/
def set? (config : Config) : String × Setting → Option Config
  | ("direction", setting) => do
    return { config with direction := ← Direction.ofWord? (← setting.word?) }
  | ("click_callback", setting) => do
    return { config with clickCallback := ← setting.text? }
  | ("html_template", setting) => do
    return { config with htmlTemplate := ← setting.nullableText? }
  | ("type_labels", setting) => do
    return { config with typeLabels := ← setting.table? Setting.text? }
  | ("type_styles", setting) => do
    return { config with typeStyles := ← setting.table? fun s => s.word?.bind Style.ofWord? }
  | _ => none

/-- The configuration that settings make up. -/
def ofSettings? (settings : List (String × Setting)) : Option Config :=
  settings.foldlM set? {}

end Config

end FlowDoc
