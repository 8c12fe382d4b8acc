/-
  Ramulator.Generic.Aldram

  The ALDRAM standard (ALDRAM.h, ALDRAM.cpp) and its controller.

  ALDRAM has the tables of DDR3 with one set of timing values for each
  temperature.  The constructor completes its copy of a line of `speed_table`
  (`init_speed`: nRRD, nFAW, nRFC and nXS are zero in the table), but builds the
  timing tables from the line itself, and so does `aldram_timing` when a refresh
  switches to the values for low temperature.  So the tables keep no distance
  between two activations of a rank, or after a refresh.
-/

import Ramulator.Generic.ChannelTiming

namespace Ramulator

open Outcome Generic List

namespace ALDRAM

inductive Temp where
  | cold | hot
deriving DecidableEq, Repr

inductive Speed where
  | s800D | s800E | s1066E | s1066F | s1066G | s1333G | s1333H | s1600H | s1600J | s1600K
  | s1866K | s1866L | s2133L | s2133M
deriving DecidableEq, Repr

/-- `SpeedEntry`, without the fields no modelled function reads. -/
structure SpeedEntry extends DDR3.SpeedEntry where
  rate : Nat

/-- A line of `speed_table`; nRRD, nFAW, nRFC and nXS are zero in all lines. -/
def speedLine (rate : Nat) (nCL nRCD nRP nCWL nRAS nRC nRTP nWTR nWR nREFI nPD nXP nCKESR : Int) :
    SpeedEntry :=
  { rate, nBL := 4, nCCD := 4, nRTRS := 2, nCL, nRCD, nRP, nCWL, nRAS, nRC, nRTP, nWTR, nWR
    nRRD := 0, nFAW := 0, nRFC := 0, nREFI, nPD, nXP, nCKESR, nXS := 0 }

def speedTable : Temp → Speed → SpeedEntry
  | .cold, .s800D => speedLine 800 5 (5 - 1) (5 - 1) 5 (15 - 5) (20 - 6) 4 4 6 3120 3 3 4
  | .cold, .s800E => speedLine 800 6 (6 - 1) (6 - 1) 5 (15 - 5) (21 - 6) 4 4 6 3120 3 3 4
  | .cold, .s1066E => speedLine 1066 6 (6 - 1) (6 - 1) 6 (20 - 5) (26 - 6) 4 4 8 4160 3 4 4
  | .cold, .s1066F => speedLine 1066 7 (7 - 1) (7 - 1) 6 (20 - 5) (27 - 6) 4 4 8 4160 3 4 4
  | .cold, .s1066G => speedLine 1066 8 (8 - 1) (8 - 1) 6 (20 - 5) (28 - 6) 4 4 8 4160 3 4 4
  | .cold, .s1333G => speedLine 1333 8 (8 - 1) (8 - 1) 7 (24 - 5) (32 - 6) 5 5 10 5200 4 4 5
  | .cold, .s1333H => speedLine 1333 9 (9 - 1) (9 - 1) 7 (24 - 5) (33 - 6) 5 5 10 5200 4 4 5
  | .cold, .s1600H => speedLine 1600 9 (9 - 2) (9 - 2) 8 (28 - 10) (37 - 12) 6 6 12 6240 4 5 5
  | .cold, .s1600J => speedLine 1600 10 (10 - 2) (10 - 2) 8 (28 - 10) (38 - 12) 6 6 12 6240 4 5 5
  | .cold, .s1600K => speedLine 1600 11 (11 - 2) (11 - 2) 8 (28 - 10) (39 - 12) 6 6 12 6240 4 5 5
  | .cold, .s1866K => speedLine 1866 11 (11 - 2) (11 - 2) 9 (32 - 10) (43 - 12) 7 7 14 7280 5 6 6
  | .cold, .s1866L => speedLine 1866 12 (12 - 2) (12 - 3) 9 (32 - 10) (44 - 13) 7 7 14 7280 5 6 6
  | .cold, .s2133L => speedLine 2133 12 (12 - 2) (12 - 3) 10 (36 - 10) (48 - 13) 8 8 16 8320 6 7 7
  | .cold, .s2133M => speedLine 2133 13 (13 - 2) (13 - 3) 10 (36 - 10) (49 - 13) 8 8 16 8320 6 7 7
  | .hot, .s800D => speedLine 800 5 5 5 5 15 20 4 4 6 3120 3 3 4
  | .hot, .s800E => speedLine 800 6 6 6 5 15 21 4 4 6 3120 3 3 4
  | .hot, .s1066E => speedLine 1066 6 6 6 6 20 26 4 4 8 4160 3 4 4
  | .hot, .s1066F => speedLine 1066 7 7 7 6 20 27 4 4 8 4160 3 4 4
  | .hot, .s1066G => speedLine 1066 8 8 8 6 20 28 4 4 8 4160 3 4 4
  | .hot, .s1333G => speedLine 1333 8 8 8 7 24 32 5 5 10 5200 4 4 5
  | .hot, .s1333H => speedLine 1333 9 9 9 7 24 33 5 5 10 5200 4 4 5
  | .hot, .s1600H => speedLine 1600 9 9 9 8 28 37 6 6 12 6240 4 5 5
  | .hot, .s1600J => speedLine 1600 10 10 10 8 28 38 6 6 12 6240 4 5 5
  | .hot, .s1600K => speedLine 1600 11 11 11 8 28 39 6 6 12 6240 4 5 5
  | .hot, .s1866K => speedLine 1866 11 11 11 9 32 43 7 7 14 7280 5 6 6
  | .hot, .s1866L => speedLine 1866 12 12 12 9 32 44 7 7 14 7280 5 6 6
  | .hot, .s2133L => speedLine 2133 12 12 12 10 36 48 8 8 16 8320 6 7 7
  | .hot, .s2133M => speedLine 2133 13 13 13 10 36 49 8 8 16 8320 6 7 7

/-! ## init_speed -/

/-- nRRD and nFAW, for a page of 1 KB and for another one.  The source asserts
    that there is no other rate. -/
def activation (rate page : Nat) : Int × Int :=
  match rate with
  | 800 => (if page = 1 then 4 else 4, if page = 1 then 16 else 20)
  | 1066 => (if page = 1 then 4 else 6, if page = 1 then 20 else 27)
  | 1333 => (if page = 1 then 4 else 5, if page = 1 then 20 else 30)
  | 1600 => (if page = 1 then 5 else 6, if page = 1 then 24 else 32)
  | 1866 => (if page = 1 then 5 else 6, if page = 1 then 26 else 33)
  | 2133 => (if page = 1 then 5 else 6, if page = 1 then 27 else 34)
  | _ => (0, 0)

def forChip (chip : Nat) (mb512 gb1 gb2 gb4 gb8 : Int) : Int :=
  if chip = 512 then mb512 else if chip = 1 <<< 10 then gb1 else if chip = 1 <<< 11 then gb2
  else if chip = 1 <<< 12 then gb4 else gb8

def nRFC (rate chip : Nat) : Int :=
  match rate with
  | 800 => forChip chip 36 44 64 104 140
  | 1066 => forChip chip 48 59 86 139 187
  | 1333 => forChip chip 60 74 107 174 234
  | 1600 => forChip chip 72 88 128 208 280
  | 1866 => forChip chip 84 103 150 243 327
  | 2133 => forChip chip 96 118 171 278 374
  | _ => 0

def nXS (rate chip : Nat) : Int :=
  match rate with
  | 800 => forChip chip 40 48 68 108 144
  | 1066 => forChip chip 54 64 91 144 192
  | 1333 => forChip chip 67 80 114 180 240
  | 1600 => forChip chip 80 96 136 216 288
  | 1866 => forChip chip 94 112 159 252 336
  | 2133 => forChip chip 107 128 182 288 384
  | _ => 0

def initSpeed (org : OrgEntry) (s : SpeedEntry) : SpeedEntry :=
  let page := (org.dq * org.counts DDR3.Level.column) >>> 13
  { s with
    nRRD := (activation s.rate page).1
    nFAW := (activation s.rate page).2
    nRFC := nRFC s.rate org.size
    nXS := nXS s.rate org.size }

/-! ## The controller -/

structure Config where
  org : OrgEntry
  speed : Speed
  noDramLatency : Bool := false
  scheduler : SchedulerType := .frfcfsPriorHit
  rowpolicy : RowPolicyType := .opened

namespace Config

variable (cfg : Config)

def speedEntry : SpeedEntry := initSpeed cfg.org (speedTable .cold cfg.speed)

def withTiming (s : SpeedEntry) : ChannelConfig where
  device :=
    { levels := DDR3.Level.max
      spec := DDR3.spec cfg.org s.toSpeedEntry
      translate := Generic.translate
      readLatency := cfg.speedEntry.nCL + cfg.speedEntry.nBL
      nREFI := cfg.speedEntry.nREFI }
  noDramLatency := cfg.noDramLatency
  scheduler := cfg.scheduler
  rowpolicy := cfg.rowpolicy

def atTemp (temp : Temp) : ChannelConfig := cfg.withTiming (speedTable temp cfg.speed)

end Config

def config2GbX8 : Config where
  org := ⟨2 <<< 10, 8, [1, 1, 8, 1 <<< 15, 1 <<< 10]⟩
  speed := .s1600K

end ALDRAM

end Ramulator
