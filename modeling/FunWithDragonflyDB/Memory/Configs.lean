/- FunWithDragonflyDB/Memory/Configs
   digest: The memory benchmark's configuration of each type, from defaults and options. -/

import FunWithDragonflyDB.Lib.Shortest
import FunWithDragonflyDB.Fqdn.Strings

set_option autoImplicit false
set_option relaxedAutoImplicit false

namespace FunWithDragonflyDB.Memory.Configs

open Lib.Shortest (readFloat)
open Fqdn.Strings (Text)

/-- The exceptions that end a population or a sweep. -/
inductive PyError where
  | zeroDivisionError
  | responseError (message : Text)
  deriving DecidableEq, Repr

/-- The types in the order in which they run. -/
inductive TypeName where
  | strings | hashes | lists | sets | sortedSets | streams | hyperloglog
  | json | jsonFlat | jsonMedium | jsonDeep
  deriving DecidableEq, Repr

inductive JsonDepth where
  | flat | medium | deep
  deriving DecidableEq, Repr

structure TypeConfig where
  enabled : Bool := true
  numKeys : ℤ := 1000000
  valueSize : ℤ := 64
  numFields : ℤ := 10
  pipelineBatch : ℤ := 5000
  jsonDepth : JsonDepth := .flat
  deriving DecidableEq, Repr

def defaultConfigs : TypeName → TypeConfig
  | .strings => { numKeys := 10000000, valueSize := 64 }
  | .hashes => { numKeys := 500000, numFields := 10, valueSize := 32 }
  | .lists => { numKeys := 500000, numFields := 10, valueSize := 32 }
  | .sets => { numKeys := 500000, numFields := 15, valueSize := 24 }
  | .sortedSets => { numKeys := 500000, numFields := 15, valueSize := 24 }
  | .streams => { numKeys := 500000, numFields := 5, valueSize := 32 }
  | .hyperloglog => { numKeys := 200000, numFields := 100 }
  | .json => { enabled := false, numKeys := 500000, numFields := 8, valueSize := 32 }
  | .jsonFlat => { enabled := false, numKeys := 500000, numFields := 8, valueSize := 32 }
  | .jsonMedium =>
    { enabled := false, numKeys := 500000, numFields := 8, valueSize := 32, jsonDepth := .medium }
  | .jsonDeep =>
    { enabled := false, numKeys := 500000, numFields := 8, valueSize := 32, jsonDepth := .deep }

/-- The options that `buildConfigs` reads; `jsonDepth` is absent for `all`. -/
structure Args where
  scale : ℚ := 1
  containerChildrenCount : Option ℤ := none
  enableJson : Bool := false
  jsonDepth : Option JsonDepth := some .flat
  stringKeys : Option ℤ := none
  hashKeys : Option ℤ := none
  listKeys : Option ℤ := none
  setKeys : Option ℤ := none
  zsetKeys : Option ℤ := none
  streamKeys : Option ℤ := none
  hllKeys : Option ℤ := none
  jsonKeys : Option ℤ := none
  valueSize : Option ℤ := none
  hashFields : Option ℤ := none
  listElements : Option ℤ := none
  setMembers : Option ℤ := none
  zsetMembers : Option ℤ := none
  pipelineBatch : Option ℤ := none
  types : List TypeName := []

/-- The types of which a key has children. -/
def containerTypes : List TypeName := [.streams, .hashes, .lists, .sets, .sortedSets]

/-- The option that overrides a type's number of keys. -/
def Args.keyOverride (args : Args) : TypeName → Option ℤ
  | .strings => args.stringKeys
  | .hashes => args.hashKeys
  | .lists => args.listKeys
  | .sets => args.setKeys
  | .sortedSets => args.zsetKeys
  | .streams => args.streamKeys
  | .hyperloglog => args.hllKeys
  | .json => args.jsonKeys
  | _ => none

/-- The option that overrides a type's number of fields, elements or members. -/
def Args.fieldOverride (args : Args) : TypeName → Option ℤ
  | .hashes => args.hashFields
  | .lists => args.listElements
  | .sets => args.setMembers
  | .sortedSets => args.zsetMembers
  | _ => none

/-- Python's `int(x)` of a number that is not whole. -/
def pyTrunc (x : ℚ) : ℤ := x.num.tdiv x.den

section Build

/-- All configurations, by type. -/
abbrev Table := TypeName → TypeConfig

/-- The scale is a float64, and so is its product with a count. -/
def applyScale (scale : ℚ) (configs : Table) : Table := fun t =>
  if scale ≠ 1 then
    { configs t with numKeys := max 1000 (pyTrunc (readFloat ((configs t).numKeys * scale))) }
  else configs t

def applyChildren (children : Option ℤ) (configs : Table) : Table := fun t =>
  match children with
  | some n => if t ∈ containerTypes then { configs t with numFields := n } else configs t
  | none => configs t

def applyJson (enableJson : Bool) (configs : Table) : Table := fun t =>
  if enableJson ∧ t = .json then { configs t with enabled := true } else configs t

def applyKeys (args : Args) (configs : Table) : Table := fun t =>
  match args.keyOverride t with
  | some n => { configs t with numKeys := n, enabled := true }
  | none => configs t

/-- The HyperLogLog keys are as many as the strings unless their number was given. -/
def trackStrings (args : Args) (configs : Table) : Table := fun t =>
  if args.hllKeys = none ∧ t = .hyperloglog then
    { configs t with numKeys := (configs .strings).numKeys }
  else configs t

/-- One type of documents, or the three types that show every depth apart. -/
def applyDepth (jsonDepth : Option JsonDepth) (configs : Table) : Table := fun t =>
  if (configs .json).enabled then
    match jsonDepth with
    | none =>
      if t = .json then { configs t with enabled := false }
      else if t ∈ [TypeName.jsonFlat, .jsonMedium, .jsonDeep] then
        { configs t with enabled := true, numKeys := (configs .json).numKeys }
      else configs t
    | some depth => if t = .json then { configs t with jsonDepth := depth } else configs t
  else configs t

def applySizes (args : Args) (configs : Table) : Table := fun t =>
  { configs t with
    valueSize := args.valueSize.getD (configs t).valueSize
    numFields := (args.fieldOverride t).getD (configs t).numFields
    pipelineBatch := args.pipelineBatch.getD (configs t).pipelineBatch }

/-- Only the types asked for run, if any were. -/
def applyTypes (types : List TypeName) (configs : Table) : Table := fun t =>
  if types ≠ [] then { configs t with enabled := t ∈ types } else configs t

def buildConfigs (args : Args) : Table :=
  let configs := applyScale args.scale defaultConfigs
  let configs := applyChildren args.containerChildrenCount configs
  let configs := applyJson args.enableJson configs
  let configs := trackStrings args (applyKeys args configs)
  let configs := applyDepth args.jsonDepth configs
  let configs := applySizes args configs
  applyTypes args.types configs

end Build

/-- No negative number of keys, and no key or batch without anything in it. -/
structure TypeConfig.Valid (cfg : TypeConfig) : Prop where
  keys : 0 ≤ cfg.numKeys
  fields : 1 ≤ cfg.numFields
  batch : 1 ≤ cfg.pipelineBatch

structure Args.InRange (args : Args) : Prop where
  keys : ∀ t, ∀ n ∈ args.keyOverride t, 0 ≤ n
  children : ∀ n ∈ args.containerChildrenCount, 1 ≤ n
  fields : ∀ t, ∀ n ∈ args.fieldOverride t, 1 ≤ n
  batch : ∀ n ∈ args.pipelineBatch, 1 ≤ n

section Valid

variable {args : Args} {configs : Table}

theorem defaultConfigs_valid (t : TypeName) : (defaultConfigs t).Valid := by
  cases t <;> constructor <;> decide

theorem applyScale_valid (scale : ℚ) (h : ∀ t, (configs t).Valid) (t : TypeName) :
    (applyScale scale configs t).Valid := by
  unfold applyScale
  split_ifs
  · exact ⟨(by decide : (0 : ℤ) ≤ 1000).trans (le_max_left _ _), (h t).fields, (h t).batch⟩
  · exact h t

theorem applyChildren_valid {children : Option ℤ} (hn : ∀ n ∈ children, 1 ≤ n)
    (h : ∀ t, (configs t).Valid) (t : TypeName) : (applyChildren children configs t).Valid := by
  unfold applyChildren
  split
  · split_ifs
    · exact ⟨(h t).keys, hn _ rfl, (h t).batch⟩
    · exact h t
  · exact h t

theorem applyKeys_valid (hargs : args.InRange) (h : ∀ t, (configs t).Valid) (t : TypeName) :
    (applyKeys args configs t).Valid := by
  unfold applyKeys
  split
  · next n hn => exact ⟨hargs.keys t n hn, (h t).fields, (h t).batch⟩
  · exact h t

theorem trackStrings_valid (args : Args) (h : ∀ t, (configs t).Valid) (t : TypeName) :
    (trackStrings args configs t).Valid := by
  unfold trackStrings
  split_ifs
  · exact ⟨(h .strings).keys, (h t).fields, (h t).batch⟩
  · exact h t

theorem applyJson_valid (enableJson : Bool) (h : ∀ t, (configs t).Valid) (t : TypeName) :
    (applyJson enableJson configs t).Valid := by
  unfold applyJson
  split_ifs
  · exact ⟨(h t).keys, (h t).fields, (h t).batch⟩
  · exact h t

theorem applyDepth_valid (jsonDepth : Option JsonDepth) (h : ∀ t, (configs t).Valid)
    (t : TypeName) : (applyDepth jsonDepth configs t).Valid := by
  have ht := h t
  have hjson := h .json
  cases jsonDepth with
  | none =>
    simp only [applyDepth]
    split_ifs
    · exact ⟨ht.keys, ht.fields, ht.batch⟩
    · exact ⟨hjson.keys, ht.fields, ht.batch⟩
    · exact ht
    · exact ht
  | some depth =>
    simp only [applyDepth]
    split_ifs
    · exact ⟨ht.keys, ht.fields, ht.batch⟩
    · exact ht
    · exact ht

theorem applyTypes_valid (types : List TypeName) (h : ∀ t, (configs t).Valid) (t : TypeName) :
    (applyTypes types configs t).Valid := by
  unfold applyTypes
  split_ifs
  · exact ⟨(h t).keys, (h t).fields, (h t).batch⟩
  · exact h t

theorem getD_of_mem {p : ℤ → Prop} {o : Option ℤ} (ho : ∀ n ∈ o, p n) {d : ℤ} (hd : p d) :
    p (o.getD d) := by
  cases o with
  | none => exact hd
  | some n => exact ho n rfl

theorem applySizes_valid (hargs : args.InRange) (h : ∀ t, (configs t).Valid) (t : TypeName) :
    (applySizes args configs t).Valid :=
  ⟨(h t).keys, getD_of_mem (hargs.fields t) (h t).fields, getD_of_mem hargs.batch (h t).batch⟩

/-- Options in range configure every type validly. -/
theorem buildConfigs_valid (hargs : args.InRange) : ∀ t, (buildConfigs args t).Valid := by
  have hscaled := applyScale_valid args.scale defaultConfigs_valid
  have hjson := applyJson_valid args.enableJson (applyChildren_valid hargs.children hscaled)
  have hkeys := trackStrings_valid args (applyKeys_valid hargs hjson)
  exact applyTypes_valid args.types
    (applySizes_valid hargs (applyDepth_valid args.jsonDepth hkeys))

end Valid

end FunWithDragonflyDB.Memory.Configs
