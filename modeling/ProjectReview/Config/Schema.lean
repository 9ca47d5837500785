import ProjectReview.Data.Value

set_option autoImplicit false

/-! # Settings

The settings of a project: their names, the type of their values, their defaults and what they are
for. `Config.standard` is the configuration in which every setting has its default. -/

namespace ProjectReview

/-- The type of a setting's value. -/
inductive SettingType where
  | list
  | integer
deriving DecidableEq, Repr

/-- The value is of the type; a truth value is no integer. -/
def SettingType.admits : SettingType → Value → Bool
  | .list, .list _ => true
  | .integer, .int _ => true
  | _, _ => false

/-- A setting: its name, type, default and purpose. -/
structure Setting where
  key : String
  type : SettingType
  default : Value
  description : String

/-- All settings, in the order in which they are shown. -/
def settings : List Setting :=
  [⟨"reviews", .list, .list [], "Reviews to run, as 'package.module:attribute' specs"⟩,
   ⟨"source_dirs", .list, .texts ["."],
    "Directories (relative to the project root) holding modules"⟩,
   ⟨"module_patterns", .list, .texts ["*.py"], "Glob patterns for files parsed as modules"⟩,
   ⟨"extra_file_patterns", .list, .texts ["*.md", "*.txt", "*.cfg"],
    "Glob patterns for supplementary text files handed to extra-file inspectors"⟩,
   ⟨"exclude", .list, .list [], "Path patterns to exclude from discovery"⟩,
   ⟨"ignore", .list, .list [], "Path patterns whose errors are hidden for every review"⟩,
   ⟨"max_workers", .integer, .int 0,
    "Worker threads for per-file knowledge extraction (0 = serial)"⟩,
   ⟨"parallel_threshold", .integer, .int 8,
    "Minimum changed files in one run before extraction goes parallel"⟩,
   ⟨"max_fix_passes", .integer, .int 100,
    "Upper bound on apply-and-rerun iterations for `reviewkit fix`"⟩]

/-- The setting of that name. -/
def setting? (key : String) : Option Setting :=
  settings.find? fun setting => setting.key = key

/-- A configuration: the values of settings, and of whatever else its file holds. -/
abbrev Config := Assoc Value

namespace Config

/-- Every setting at its default. -/
def standard : Config :=
  settings.map fun setting => (setting.key, setting.default)

/-- The value at a key, or the given value if there is none. -/
def valueAt (config : Config) (key : String) (default : Value) : Value :=
  (config.get? key).getD default

end Config

end ProjectReview
