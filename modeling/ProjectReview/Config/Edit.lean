import ProjectReview.Action
import ProjectReview.Config.Schema
import ProjectReview.Text.Search

set_option autoImplicit false

/-! # Changing settings

A change works on a configuration in place. `assignInPlace` sets a setting from text: a list gets
one more item, unless it has it already, and an integer is read from the text and must not be
negative. `resetInPlace` gives a setting its default back. `assign` and `reset` give the
configuration that results. A change that is refused leaves the configuration as it was
(`assignInPlace_result`, `resetInPlace_result`). -/

namespace ProjectReview.Config

/-- The value of a list setting with one more item. A text holds its parts and a table its keys, but
neither can take an item in. -/
def appendItem (value : Value) (item : String) : Except ShapeFault Value :=
  match value with
  | .list items =>
    if items.any fun v => v.text? = some item then .ok value else .ok (.list (items ++ [.text item]))
  | .text s => if holds item s then .ok value else .error (.noAttribute value.typeName "append")
  | .table fields =>
    if Assoc.has fields item then .ok value else .error (.noAttribute value.typeName "append")
  | other => .error (.noMembership other.typeName)

/-- The integer that a text gives for a setting. -/
def nonNegative (key raw : String) : Except Fault Int :=
  match readInteger raw with
  | .error fault => .error (.shape (.integer fault))
  | .ok n => if n < 0 then .error (.negative key raw) else .ok n

/-- Puts one more item into a list setting, in place. A list that is missing is put in before the
item is looked for. -/
def appendInPlace (key item : String) : Action Config Unit := do
  Action.assign fun config => if config.has key then config else config.set key (.list [])
  let value ← Action.look fun config =>
    Journaled.ofExcept ((appendItem (config.valueAt key (.list [])) item).mapError Fault.shape)
  Action.assign fun config => config.set key value

/-- Sets an integer setting from text, in place. -/
def storeInPlace (key raw : String) : Action Config Unit := do
  let n ← Action.lift (Journaled.ofExcept (nonNegative key raw))
  Action.assign fun config => config.set key (.int n)

/-- Sets a setting from text, in place. -/
def assignInPlace (key raw : String) : Action Config Unit :=
  match setting? key with
  | none => Action.lift (Journaled.fail (.unknownKey key))
  | some setting =>
    match setting.type with
    | .integer => storeInPlace key raw
    | .list => appendInPlace key raw

/-- Gives a setting its default back, in place. -/
def resetInPlace (key : String) : Action Config Unit :=
  match setting? key with
  | none => Action.lift (Journaled.fail (.unknownKey key))
  | some setting => Action.assign fun config => config.set key setting.default

/-- Sets a setting from text. -/
def assign (config : Config) (key raw : String) : Except Fault Config :=
  let (outcome, left) := (assignInPlace key raw).result config
  outcome.map fun _ => left

/-- Gives a setting its default back. -/
def reset (config : Config) (key : String) : Except Fault Config :=
  let (outcome, left) := (resetInPlace key).result config
  outcome.map fun _ => left

/-- What a change comes to in place, given what results of it: a change that is refused leaves the
configuration as it was. -/
def inPlace (config : Config) : Except Fault Config → Except Fault Unit × Config
  | .ok next => (.ok (), next)
  | .error fault => (.error fault, config)

theorem map_inPlace (config : Config) (changed : Except Fault Config) :
    ((config.inPlace changed).1.map fun _ => (config.inPlace changed).2) = changed := by
  cases changed <;> rfl

theorem storeInPlace_result (config : Config) (key raw : String) :
    (storeInPlace key raw).result config
      = config.inPlace ((nonNegative key raw).map fun n => config.set key (.int n)) := by
  simp only [storeInPlace, Action.result_bind, Action.result_lift, Journaled.outcome_ofExcept]
  cases nonNegative key raw <;> rfl

theorem appendInPlace_result (config : Config) (key item : String) :
    (appendInPlace key item).result config
      = config.inPlace (((appendItem (config.valueAt key (.list [])) item).mapError Fault.shape).map
          fun value => config.set key value) := by
  simp only [appendInPlace, Action.result_bind, Action.result_assign, Action.result_look,
    Journaled.outcome_ofExcept]
  by_cases hkey : config.has key = true
  · rw [if_pos hkey]
    cases appendItem (config.valueAt key (.list [])) item <;> rfl
  · -- The empty list that is put in takes any item, so nothing fails after it.
    have hmissing : config.get? key = none := by simpa [Assoc.has] using hkey
    have hbefore : config.valueAt key (.list []) = .list [] := by
      rw [valueAt, hmissing, Option.getD_none]
    have hafter : valueAt (config.set key (.list [])) key (.list []) = .list [] := by
      rw [valueAt, Assoc.get?_set, if_pos rfl, Option.getD_some]
    have hitem : appendItem (.list []) item = .ok (.list [.text item]) := rfl
    simp only [if_neg hkey, hbefore, hafter, hitem]
    exact congrArg (Prod.mk (Except.ok ())) (Assoc.set_set config key (.list []) _)

theorem assignInPlace_of_integer {key : String} {setting : Setting} (h : setting? key = some setting)
    (htype : setting.type = .integer) (raw : String) :
    assignInPlace key raw = storeInPlace key raw := by
  simp only [assignInPlace, h, htype]

theorem assignInPlace_of_list {key : String} {setting : Setting} (h : setting? key = some setting)
    (htype : setting.type = .list) (raw : String) :
    assignInPlace key raw = appendInPlace key raw := by
  simp only [assignInPlace, h, htype]

/-- **Setting a setting from text.** -/
theorem assignInPlace_result (config : Config) (key raw : String) :
    (assignInPlace key raw).result config = config.inPlace (config.assign key raw) := by
  have hchanged : ∃ changed, (assignInPlace key raw).result config = config.inPlace changed := by
    cases hsetting : setting? key with
    | none => exact ⟨.error (.unknownKey key), by rw [assignInPlace, hsetting]; rfl⟩
    | some setting =>
      cases htype : setting.type with
      | integer =>
        rw [assignInPlace_of_integer hsetting htype]
        exact ⟨_, storeInPlace_result config key raw⟩
      | list =>
        rw [assignInPlace_of_list hsetting htype]
        exact ⟨_, appendInPlace_result config key raw⟩
  obtain ⟨changed, hchanged⟩ := hchanged
  rw [assign, hchanged]
  exact congrArg config.inPlace (map_inPlace config changed).symm

theorem resetInPlace_result (config : Config) (key : String) :
    (resetInPlace key).result config = config.inPlace (config.reset key) := by
  rw [reset, resetInPlace]
  cases setting? key <;> rfl

theorem assign_of_unknown {key : String} (h : setting? key = none) (config : Config)
    (raw : String) : config.assign key raw = .error (.unknownKey key) := by
  rw [assign, assignInPlace, h]
  rfl

theorem assign_of_integer {key : String} {setting : Setting} (h : setting? key = some setting)
    (htype : setting.type = .integer) (config : Config) (raw : String) :
    config.assign key raw = (nonNegative key raw).map fun n => config.set key (.int n) := by
  rw [assign, assignInPlace_of_integer h htype, storeInPlace_result]
  exact map_inPlace config _

theorem assign_of_list {key : String} {setting : Setting} (h : setting? key = some setting)
    (htype : setting.type = .list) (config : Config) (raw : String) :
    config.assign key raw
      = ((appendItem (config.valueAt key (.list [])) raw).mapError Fault.shape).map
          fun value => config.set key value := by
  rw [assign, assignInPlace_of_list h htype, appendInPlace_result]
  exact map_inPlace config _

theorem reset_of_unknown {key : String} (h : setting? key = none) (config : Config) :
    config.reset key = .error (.unknownKey key) := by
  rw [reset, resetInPlace, h]
  rfl

theorem reset_of_setting {key : String} {setting : Setting} (h : setting? key = some setting)
    (config : Config) : config.reset key = .ok (config.set key setting.default) := by
  rw [reset, resetInPlace, h]
  rfl

end ProjectReview.Config
