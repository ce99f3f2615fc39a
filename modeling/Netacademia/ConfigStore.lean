/-
# The configuration in flash

`CFG_Save` and `CFG_Load` of `examples/esp_mqtt_proj/modules/config.c`. There are two
sectors for the configuration, and the flag of a third one says which is the one to load.
The power may fail between two operations on the flash, or in one of them: then its sector
holds anything.

* `load_atomic`: whatever the flash holds at first and wherever the power fails, how often
  ever, the configuration that would be loaded is the one of the last load or save that
  came to its end, or the one of the save that did not.
-/
import Mathlib.Data.Vector.Basic
import Netacademia.Lib.Flash
import Netacademia.Lib.Machine

namespace Netacademia
namespace ConfigStore

open Lib Flash

/-! ### The configuration -/

/-- The bytes of a `SYSCFG`, with its fields in their order and the padding at its end. -/
abbrev SysCfg := Vector UInt8 308

def CFG_HOLDER : UInt32 := 0x00FF55A4

/-- A word, the low byte first. -/
def wordOf (bs : List UInt8) : UInt32 := bs.foldr (fun b w => w <<< 8 ||| b.toUInt32) 0

def bytesOf (w : UInt32) : List UInt8 := [w.toUInt8, (w >>> 8).toUInt8, (w >>> 16).toUInt8, (w >>> 24).toUInt8]

def cfgHolder (sysCfg : SysCfg) : UInt32 := wordOf (sysCfg.toList.take 4)

/-- A configuration with the holder in it. -/
abbrev Config := { sysCfg : SysCfg // cfgHolder sysCfg = CFG_HOLDER }

/-- A text in an array of `n` bytes that were zero. -/
def field (n : ℕ) (text : List Char) : List UInt8 :=
  (text.map fun c => c.toNat.toUInt8) ++ List.replicate (n - text.length) 0

def AUTH_WPA2_PSK : UInt32 := 3

/-- The default configuration of `CFG_Load`. (`MQTT_CLIENT_ID` has no conversion in it.) -/
def defaultBytes : List UInt8 :=
  bytesOf CFG_HOLDER ++
  field 32 "Device_ID".toList ++
  field 64 "AP_SSID".toList ++
  field 64 "AP_Passwd".toList ++
  bytesOf AUTH_WPA2_PSK ++
  field 64 "192.168.1.100".toList ++
  bytesOf 1883 ++
  field 32 "Device_Name".toList ++
  field 32 "Device_Passwd".toList ++
  bytesOf 120 ++
  [0, 0, 0, 0]

theorem length_defaultBytes : defaultBytes.length = 308 := by decide +kernel

@[irreducible] def defaultCfg : Config := ⟨⟨defaultBytes.toArray, length_defaultBytes⟩, by decide +kernel⟩

/-! ### The routines -/

/-- The sectors `CFG_LOCATION + 0`, `+ 1` and `+ 3`. -/
inductive Sector
  | cfg0
  | cfg1
  | flag
  deriving DecidableEq, Repr

abbrev Storage := Sectors Sector

/-- `saveFlag`, as it is read from the flash. -/
def saveFlag (flash : Storage) : Vector UInt8 4 := read (flash .flag) 4

/-- The operations of `CFG_Save` on the flash. -/
def cfgSave (flash : Storage) (sysCfg : SysCfg) : List (Op Sector) :=
  let flag := saveFlag flash
  if flag[0] = 0 then
    [.erase .cfg1, .write .cfg1 sysCfg.toList, .erase .flag, .write .flag (flag.set 0 1).toList]
  else
    [.erase .cfg0, .write .cfg0 sysCfg.toList, .erase .flag, .write .flag (flag.set 0 0).toList]

/-- `CFG_Load`: `sysCfg`, and the operations of the save. -/
def cfgLoad (flash : Storage) : Config × List (Op Sector) :=
  let sysCfg := if (saveFlag flash)[0] = 0 then read (flash .cfg0) 308 else read (flash .cfg1) 308
  if h : cfgHolder sysCfg ≠ CFG_HOLDER then (defaultCfg, cfgSave flash defaultCfg)
  else (⟨sysCfg, not_not.mp h⟩, [])

/-! ### Runs -/

structure State where
  flash : Storage
  /-- While there is power, `sysCfg` and the operations that are left of a routine. -/
  running : Option (Config × List (Op Sector))

inductive Event
  /-- The power comes, and `CFG_Load` is called. -/
  | boot
  /-- The next operation on the flash. -/
  | exec
  /-- The program sets its configuration, and calls `CFG_Save`. -/
  | save (sysCfg : Config)
  /-- The power fails. -/
  | powerFail (junk : ℕ → UInt8)

def step (s : State) : Event → Option State
  | .boot =>
    match s.running with
    | none => some { s with running := some (cfgLoad s.flash) }
    | some _ => none
  | .exec =>
    match s.running with
    | some (c, op :: ops) => some ⟨exec op s.flash, some (c, ops)⟩
    | some (_, []) => none
    | none => none
  | .save sysCfg =>
    match s.running with
    | some (_, []) => some { s with running := some (sysCfg, cfgSave s.flash sysCfg) }
    | some (_, _ :: _) => none
    | none => none
  | .powerFail junk =>
    match s.running with
    | some (_, op :: _) => some ⟨cut op junk s.flash, none⟩
    | some (_, []) => some { s with running := none }
    | none => none

/-- A device with any flash. -/
def device (flash : Storage) : Machine State Event where
  init := ⟨flash, none⟩
  step := step

/-- The configuration of the last load or save that came to its end, and the one of a save
that has begun since. -/
structure Saved where
  last : Config
  pending : Option Config

def track (g : Saved) (s : State) : Event → Saved
  | .boot => ⟨(cfgLoad s.flash).1, none⟩
  | .exec =>
    match s.running with
    | some (c, [_]) => ⟨c, none⟩
    | _ => g
  | .save sysCfg => { g with pending := some sysCfg }
  | .powerFail _ => g

def tracked (flash : Storage) : Machine (State × Saved) Event :=
  (device flash).history ⟨(cfgLoad flash).1, none⟩ track

/-- A load finds the last configuration, or the one of the save that has begun since; a
program that has nothing left to write holds the one that a load would find. -/
def Safe (s : State × Saved) : Prop :=
  ((cfgLoad s.1.flash).1 = s.2.last ∨ s.2.pending = some (cfgLoad s.1.flash).1) ∧
    ∀ c, s.1.running = some (c, []) → c = s.2.last ∧ (cfgLoad s.1.flash).1 = c ∧ s.2.pending = none

/-! ### What would be loaded -/

/-- The configuration of a sector. -/
def slot (flash : Storage) (sec : Sector) : Config :=
  if h : cfgHolder (read (flash sec) 308) = CFG_HOLDER then ⟨read (flash sec) 308, h⟩ else defaultCfg

/-- The sector that the flag says. -/
def selected (flash : Storage) : Sector := if (saveFlag flash)[0] = 0 then .cfg0 else .cfg1

/-- The sector for the next save. -/
def next : Sector → Sector
  | .cfg0 => .cfg1
  | .cfg1 => .cfg0
  | .flag => .flag

theorem cfgLoad_eq (flash : Storage) : cfgLoad flash = (slot flash (selected flash),
    if cfgHolder (read (flash (selected flash)) 308) = CFG_HOLDER then [] else cfgSave flash defaultCfg) := by
  have hread : (if (saveFlag flash)[0] = 0 then read (flash .cfg0) 308 else read (flash .cfg1) 308) =
      read (flash (selected flash)) 308 := by
    unfold selected
    split
    · rfl
    · rfl
  unfold cfgLoad slot
  simp only [hread]
  by_cases h : cfgHolder (read (flash (selected flash)) 308) = CFG_HOLDER
  · rw [dif_neg (not_not.mpr h), dif_pos h, if_pos h]
  · rw [dif_pos h, dif_neg h, if_neg h]

theorem cfgLoad_fst (flash : Storage) : (cfgLoad flash).1 = slot flash (selected flash) := by rw [cfgLoad_eq]

/-- A load that saves, saves the configuration that it loads. -/
theorem cfgLoad_snd (flash : Storage) :
    (cfgLoad flash).2 = [] ∨ (cfgLoad flash).2 = cfgSave flash (cfgLoad flash).1 := by
  rw [cfgLoad_eq]
  by_cases h : cfgHolder (read (flash (selected flash)) 308) = CFG_HOLDER
  · left
    rw [if_pos h]
  · right
    rw [if_neg h, slot, dif_neg h]

theorem slot_congr {flash flash' : Storage} {sec : Sector} (h : flash' sec = flash sec) :
    slot flash' sec = slot flash sec := by
  unfold slot
  rw [h]

theorem selected_congr {flash flash' : Storage} (h : flash' .flag = flash .flag) :
    selected flash' = selected flash := by
  unfold selected saveFlag
  rw [h]

/-- The byte of the flag with which a sector is selected. -/
def flagOf : Sector → UInt8
  | .cfg1 => 1
  | _ => 0

/-- The operations of a save to a sector. -/
theorem cfgSave_eq (flash : Storage) (sysCfg : SysCfg) : cfgSave flash sysCfg =
    [.erase (next (selected flash)), .write (next (selected flash)) sysCfg.toList, .erase .flag,
      .write .flag ((saveFlag flash).set 0 (flagOf (next (selected flash)))).toList] := by
  unfold cfgSave selected
  simp only
  split
  · rfl
  · rfl

theorem selected_cases (flash : Storage) {sec : Sector} (hsec : sec ≠ .flag) :
    selected flash = sec ∨ selected flash = next sec := by
  unfold selected
  cases sec with
  | cfg0 => split <;> simp [next]
  | cfg1 => split <;> simp [next]
  | flag => exact absurd rfl hsec

theorem next_next (sec : Sector) : next (next sec) = sec := by cases sec <;> rfl

theorem next_ne {sec : Sector} (hsec : sec ≠ .flag) : next sec ≠ sec ∧ next sec ≠ .flag := by
  cases sec with
  | cfg0 => exact ⟨by decide, by decide⟩
  | cfg1 => exact ⟨by decide, by decide⟩
  | flag => exact absurd rfl hsec

theorem selected_ne_flag (flash : Storage) : selected flash ≠ .flag := by
  unfold selected
  split <;> decide

/-! ### A save -/

/-- The place of a save to a sector: what was loaded stays in the other sector, and from
the second operation on the flag the new configuration is in its own. -/
inductive Saving (old new : Config) (sec : Sector) (v : Vector UInt8 4) (flash : Storage) : List (Op Sector) → Prop
  | eraseCfg (hsel : selected flash = next sec) (hold : slot flash (next sec) = old) :
    Saving old new sec v flash
      [.erase sec, .write sec new.1.toList, .erase .flag, .write .flag (v.set 0 (flagOf sec)).toList]
  | writeCfg (hsel : selected flash = next sec) (hold : slot flash (next sec) = old) (herased : flash sec = erased) :
    Saving old new sec v flash [.write sec new.1.toList, .erase .flag, .write .flag (v.set 0 (flagOf sec)).toList]
  | eraseFlag (hsel : selected flash = next sec) (hold : slot flash (next sec) = old) (hnew : slot flash sec = new) :
    Saving old new sec v flash [.erase .flag, .write .flag (v.set 0 (flagOf sec)).toList]
  | writeFlag (hold : slot flash (next sec) = old) (hnew : slot flash sec = new) (herased : flash .flag = erased) :
    Saving old new sec v flash [.write .flag (v.set 0 (flagOf sec)).toList]

variable {old new : Config} {sec : Sector} {v : Vector UInt8 4} {flash : Storage}

theorem saving_cfgSave (flash : Storage) (new : Config) :
    Saving (slot flash (selected flash)) new (next (selected flash)) (saveFlag flash) flash (cfgSave flash new.1) := by
  rw [cfgSave_eq]
  exact .eraseCfg (next_next _).symm (by rw [next_next])

/-- The sector that was written is a whole configuration. -/
theorem slot_written (h : flash sec = written erased new.1.toList) : slot flash sec = new := by
  have hread : read (flash sec) 308 = new.1 := by rw [h, read_write]
  have hh : cfgHolder (read (flash sec) 308) = CFG_HOLDER := by
    rw [hread]
    exact new.2
  unfold slot
  rw [dif_pos hh]
  exact Subtype.ext hread

theorem selected_written (hsec : sec ≠ .flag) (h : flash .flag = written erased (v.set 0 (flagOf sec)).toList) :
    selected flash = sec := by
  have hread : saveFlag flash = v.set 0 (flagOf sec) := by rw [saveFlag, h, read_write]
  unfold selected
  rw [hread]
  cases sec with
  | cfg0 => simp [flagOf]
  | cfg1 => simp [flagOf]
  | flag => exact absurd rfl hsec

/-- An operation of a save, and what a load would find after the last one. -/
theorem saving_exec (hsec : sec ≠ .flag) {op : Op Sector} {ops : List (Op Sector)}
    (h : Saving old new sec v flash (op :: ops)) :
    if ops = [] then slot (exec op flash) (selected (exec op flash)) = new
    else Saving old new sec v (exec op flash) ops := by
  obtain ⟨hne, hnf⟩ := next_ne hsec
  cases h with
  | eraseCfg hsel hold =>
    rw [if_neg (List.cons_ne_nil _ _)]
    refine .writeCfg ?_ ?_ (exec_erase flash sec)
    · rw [selected_congr (exec_other (.erase sec) flash hsec.symm), hsel]
    · rw [slot_congr (exec_other (.erase sec) flash hne), hold]
  | writeCfg hsel hold herased =>
    rw [if_neg (List.cons_ne_nil _ _)]
    refine .eraseFlag ?_ ?_ (slot_written ?_)
    · rw [selected_congr (exec_other (.write sec _) flash hsec.symm), hsel]
    · rw [slot_congr (exec_other (.write sec _) flash hne), hold]
    · rw [exec_write, herased]
  | eraseFlag hsel hold hnew =>
    rw [if_neg (List.cons_ne_nil _ _)]
    refine .writeFlag ?_ ?_ (exec_erase flash .flag)
    · rw [slot_congr (exec_other _ flash hnf), hold]
    · rw [slot_congr (exec_other _ flash hsec), hnew]
  | writeFlag hold hnew herased =>
    rw [if_pos rfl, selected_written hsec, slot_congr (exec_other _ flash hsec), hnew]
    rw [exec_write, herased]

/-- What a load would find in the middle of a save. -/
theorem saving_load (hsec : sec ≠ .flag) {ops : List (Op Sector)} (h : Saving old new sec v flash ops) :
    slot flash (selected flash) = old ∨ slot flash (selected flash) = new := by
  cases h with
  | eraseCfg hsel hold => exact Or.inl (by rw [hsel, hold])
  | writeCfg hsel hold _ => exact Or.inl (by rw [hsel, hold])
  | eraseFlag hsel hold _ => exact Or.inl (by rw [hsel, hold])
  | writeFlag hold hnew _ =>
    rcases selected_cases flash hsec with h | h
    · exact Or.inr (by rw [h, hnew])
    · exact Or.inl (by rw [h, hold])

/-- What a load will find when the power has failed in an operation of a save. -/
theorem saving_cut (hsec : sec ≠ .flag) {op : Op Sector} {ops : List (Op Sector)}
    (h : Saving old new sec v flash (op :: ops)) (junk : ℕ → UInt8) :
    slot (cut op junk flash) (selected (cut op junk flash)) = old ∨
      slot (cut op junk flash) (selected (cut op junk flash)) = new := by
  obtain ⟨hne, hnf⟩ := next_ne hsec
  -- the flag is not touched before the new configuration is written
  have hcfg (op : Op Sector) (hop : op.sec = sec) (hsel : selected flash = next sec)
      (hold : slot flash (next sec) = old) : slot (cut op junk flash) (selected (cut op junk flash)) = old := by
    rw [selected_congr (cut_other op junk flash (hop ▸ hsec.symm)), hsel,
      slot_congr (cut_other op junk flash (hop ▸ hne)), hold]
  have hflag (op : Op Sector) (hop : op.sec = .flag) (hold : slot flash (next sec) = old)
      (hnew : slot flash sec = new) :
      slot (cut op junk flash) (selected (cut op junk flash)) = old ∨
        slot (cut op junk flash) (selected (cut op junk flash)) = new := by
    rcases selected_cases (cut op junk flash) hsec with h | h
    · exact Or.inr (by rw [h, slot_congr (cut_other op junk flash (hop ▸ hsec)), hnew])
    · exact Or.inl (by rw [h, slot_congr (cut_other op junk flash (hop ▸ hnf)), hold])
  cases h with
  | eraseCfg hsel hold => exact Or.inl (hcfg _ rfl hsel hold)
  | writeCfg hsel hold _ => exact Or.inl (hcfg _ rfl hsel hold)
  | eraseFlag _ hold hnew => exact hflag _ rfl hold hnew
  | writeFlag hold hnew _ => exact hflag _ rfl hold hnew

/-! ### Runs -/

/-- What the run keeps. -/
inductive Inv : State × Saved → Prop
  | off {flash : Storage} {g : Saved}
    (h : slot flash (selected flash) = g.last ∨ g.pending = some (slot flash (selected flash))) : Inv (⟨flash, none⟩, g)
  | ready {flash : Storage} (c : Config) (h : slot flash (selected flash) = c) : Inv (⟨flash, some (c, [])⟩, ⟨c, none⟩)
  | saving {flash : Storage} {c : Config} {sec : Sector} {v : Vector UInt8 4} {g : Saved} {op : Op Sector}
    {ops : List (Op Sector)} (hsec : sec ≠ .flag) (h : Saving g.last c sec v flash (op :: ops))
    (hg : c = g.last ∨ g.pending = some c) : Inv (⟨flash, some (c, op :: ops)⟩, g)

theorem inv_save {flash : Storage} {new : Config} {g : Saved} (hold : slot flash (selected flash) = g.last)
    (hg : new = g.last ∨ g.pending = some new) : Inv (⟨flash, some (new, cfgSave flash new.1)⟩, g) := by
  have h := saving_cfgSave flash new
  rw [hold] at h
  rw [cfgSave_eq] at h ⊢
  exact .saving (next_ne (selected_ne_flag flash)).2 h hg

theorem inv_boot {flash : Storage} : Inv (⟨flash, some (cfgLoad flash)⟩, ⟨(cfgLoad flash).1, none⟩) := by
  rcases cfgLoad_snd flash with h | h
  · rw [show cfgLoad flash = ((cfgLoad flash).1, []) from Prod.ext rfl h]
    exact .ready _ (cfgLoad_fst flash).symm
  · rw [show cfgLoad flash = ((cfgLoad flash).1, cfgSave flash (cfgLoad flash).1.1) from Prod.ext rfl h]
    exact inv_save (cfgLoad_fst flash).symm (Or.inl rfl)

theorem inv_step (flash₀ : Storage) (s : State × Saved) (e : Event) (s' : State × Saved) (h : Inv s)
    (hs : (tracked flash₀).step s e = some s') : Inv s' := by
  obtain ⟨t, g'⟩ := s'
  obtain ⟨hstep, rfl⟩ := Machine.history_step.mp hs
  replace hstep : step s.1 e = some t := hstep
  cases h with
  | @off flash g h =>
    cases e with
    | boot =>
      obtain rfl := Option.some.inj hstep
      exact inv_boot
    | exec => exact absurd hstep.symm (Option.some_ne_none _)
    | save c => exact absurd hstep.symm (Option.some_ne_none _)
    | powerFail junk => exact absurd hstep.symm (Option.some_ne_none _)
  | @ready flash c h =>
    cases e with
    | boot => exact absurd hstep.symm (Option.some_ne_none _)
    | exec => exact absurd hstep.symm (Option.some_ne_none _)
    | save c' =>
      obtain rfl := Option.some.inj hstep
      exact inv_save h (Or.inr rfl)
    | powerFail junk =>
      obtain rfl := Option.some.inj hstep
      exact .off (Or.inl h)
  | @saving flash c sec v g op ops hsec h hg =>
    cases e with
    | boot => exact absurd hstep.symm (Option.some_ne_none _)
    | exec =>
      obtain rfl := Option.some.inj hstep
      have hexec := saving_exec hsec h
      cases ops with
      | nil => exact .ready c (by rwa [if_pos rfl] at hexec)
      | cons op' ops =>
        rw [if_neg (List.cons_ne_nil _ _)] at hexec
        exact .saving hsec hexec hg
    | save c' => exact absurd hstep.symm (Option.some_ne_none _)
    | powerFail junk =>
      obtain rfl := Option.some.inj hstep
      refine .off ?_
      rcases saving_cut hsec h junk with hold | hnew
      · exact Or.inl hold
      · rcases hg with hg | hg
        · exact Or.inl (hnew.trans hg)
        · exact Or.inr (hg.trans (congrArg some hnew.symm))

theorem Inv.safe {s : State × Saved} (h : Inv s) : Safe s := by
  cases h with
  | off h =>
    rw [← cfgLoad_fst] at h
    exact ⟨h, fun c hc => absurd hc.symm (Option.some_ne_none _)⟩
  | ready c h =>
    rw [← cfgLoad_fst] at h
    refine ⟨Or.inl h, fun c' hc => ?_⟩
    obtain ⟨rfl, -⟩ := Prod.mk.inj (Option.some.inj hc)
    exact ⟨rfl, h, rfl⟩
  | saving hsec h hg =>
    refine ⟨?_, fun c hc => absurd (Prod.mk.inj (Option.some.inj hc)).2 (List.cons_ne_nil _ _)⟩
    rcases saving_load hsec h with hold | hnew
    · exact Or.inl ((cfgLoad_fst _).trans hold)
    · have hnew := (cfgLoad_fst _).trans hnew
      rcases hg with hg | hg
      · exact Or.inl (hnew.trans hg)
      · exact Or.inr (hg.trans (congrArg some hnew.symm))

/-- **No power failure loses a configuration.** Whatever the flash holds at first, in every
state of a run a load would find the configuration of the last load or save that came to its
end, or the one of a save that has begun since; a program that is not in a save holds the one
that a load would find. -/
theorem load_atomic (flash : Storage) (es : List Event) :
    (tracked flash).Throughout Safe (tracked flash).init es :=
  ((tracked flash).throughout_of_inv (inv_step flash) (.off (Or.inl (cfgLoad_fst flash).symm)) es).mono (tracked flash)
    fun _ h => h.safe

end ConfigStore
end Netacademia
