import Vitals.Library.Display

/-! System constants and the quantities of the rule file: `units.rs`. -/
namespace Vitals.Kernel
open Text

/-- What the kernel says about itself. Both scales are positive: a zero in the
auxiliary vector is filtered out and replaced. -/
structure SysConst where
  clkTck : UInt64
  pageSize : UInt64
  ncpu : Nat
  clkTck_pos : 0 < clkTck
  pageSize_pos : 0 < pageSize

/-- `u64::from_ne_bytes` on a little-endian machine. -/
def fromNeBytes (bytes : List UInt8) : UInt64 :=
  bytes.foldr (fun byte value => value*256 + byte.toUInt64) 0

def atNull : UInt64 := 0
def atPagesz : UInt64 := 6
def atClktck : UInt64 := 17

def parseAuxv (bytes : List UInt8) : Option UInt64 × Option UInt64 :=
  go ((bytes.toChunks 16).filter (fun pair => pair.length = 16)) none none
where
  go : List (List UInt8) → Option UInt64 → Option UInt64 → Option UInt64 × Option UInt64
    | [],clk,page => (clk,page)
    | pair::rest,clk,page =>
      let k := fromNeBytes (pair.take 8)
      let v := fromNeBytes (pair.drop 8)
      if k = atNull then (clk,page)
      else if k = atClktck then go rest (some v) page
      else if k = atPagesz then go rest clk (some v)
      else go rest clk page

def countCpus (procStat : Str) : Nat :=
  max ((lines procStat).filter (fun l =>
    (((stripPrefix "cpu".toList l).bind List.head?).map Char.isDigit).getD false)).length 1

private theorem positive_or {v : Option UInt64} {fallback : UInt64} (positive : 0 < fallback) :
    0 < ((v.filter (fun v => 0 < v)).getD fallback) := by
  cases v with
  | none => exact positive
  | some v => by_cases h : 0 < v <;> simp [Option.filter,h,positive]

def sysConst (auxv : Option (List UInt8)) (procStat : Option Str) : SysConst :=
  let read := (auxv.map parseAuxv).getD (none,none)
  { clkTck := (read.1.filter (fun v => 0 < v)).getD 100
    pageSize := (read.2.filter (fun v => 0 < v)).getD 4096
    ncpu := (procStat.map countCpus).getD 1
    clkTck_pos := positive_or (by decide)
    pageSize_pos := positive_or (by decide) }

variable (R : Rounding)

/-- Sizes such as `500MB`, `2G` and `1024`, in bytes. -/
def parseSize (s : Str) : Option UInt64 :=
  let s := trim s
  let (num,mult) :=
    match (stripSuffix "GB".toList s).or (stripSuffix "G".toList s) with
    | some p => (p,2^30)
    | none => match (stripSuffix "MB".toList s).or (stripSuffix "M".toList s) with
      | some p => (p,2^20)
      | none => match (stripSuffix "KB".toList s).or (stripSuffix "K".toList s) with
        | some p => (p,2^10)
        | none => match stripSuffix "B".toList s with
          | some p => (p,1)
          | none => (s,1)
  (F64.parse R (trim num)).bind (fun v =>
    if v < .fin 0 then none else some (R.mul v (R.ofNat mult)).toU64)

/-- Durations such as `5s`, `2m`, `500ms` and `30`, in nanoseconds. -/
def parseDuration (s : Str) : Option Nat :=
  let s := trim s
  let (num,scaleMs) :=
    match stripSuffix "ms".toList s with
    | some p => (p,1)
    | none => match stripSuffix "s".toList s with
      | some p => (p,1000)
      | none => match stripSuffix "m".toList s with
        | some p => (p,60000)
        | none => match stripSuffix "h".toList s with
          | some p => (p,3600000)
          | none => (s,1000)
  (F64.parse R (trim num)).bind (fun v =>
    if v < .fin 0 then none else some ((R.mul v (R.ofNat scaleMs)).toU64.toNat*10^6))

def byteUnits : List Char := ['B','K','M','G','T','P']

/-- The loop that divides by 1024 while a larger unit is left. -/
def scaleDown (v : F64) (i : Nat) : Nat → F64 × Nat
  | 0 => (v,i)
  | left+1 => if R.ofNat 1024 ≤ v then scaleDown (R.div v (R.ofNat 1024)) (i+1) left else (v,i)

def humanBytes (n : UInt64) : Str :=
  if n < 1024 then Decimal.renderNat n.toNat ++ ['B']
  else
    let scaled := scaleDown R (R.ofNat n.toNat) 0 (byteUnits.length-1)
    let unit := byteUnits.getD scaled.2 'B'
    if R.ofNat 100 ≤ scaled.1 then Display.decimals 0 scaled.1 ++ [unit] else Display.decimals 1 scaled.1 ++ [unit]

def humanRate (bytesPerSec : F64) : Str :=
  if bytesPerSec < R.ofNat 1 then ['-'] else humanBytes R bytesPerSec.toU64 ++ "/s".toList

end Vitals.Kernel
