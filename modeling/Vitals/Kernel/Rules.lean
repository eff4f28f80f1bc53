import Vitals.Kernel.Units

/-! The alert rules and their parser: the first half of `rules.rs`. -/
namespace Vitals.Kernel
open Text

inductive Metric where
  | cpuPct
  | memPct
  | rss
  | readBps
  | writeBps
  | netRxBps
  | netTxBps
  | threads
  | procCount
deriving DecidableEq,Inhabited

namespace Metric

def parse (s : Str) : Option Metric :=
  if s = "cpu_pct".toList ∨ s = "cpu".toList then some .cpuPct
  else if s = "mem_pct".toList then some .memPct
  else if s = "rss".toList ∨ s = "rss_bytes".toList ∨ s = "mem".toList then some .rss
  else if s = "read_bps".toList then some .readBps
  else if s = "write_bps".toList then some .writeBps
  else if s = "net_rx_bps".toList then some .netRxBps
  else if s = "net_tx_bps".toList then some .netTxBps
  else if s = "threads".toList then some .threads
  else if s = "proc_count".toList then some .procCount
  else none

def isBytes : Metric → Bool
  | .rss | .readBps | .writeBps | .netRxBps | .netTxBps => true
  | _ => false

def appliesToProcess : Metric → Bool
  | .cpuPct | .rss | .readBps | .writeBps | .threads => true
  | _ => false

def name : Metric → Str
  | .cpuPct => "cpu_pct".toList
  | .memPct => "mem_pct".toList
  | .rss => "rss".toList
  | .readBps => "read_bps".toList
  | .writeBps => "write_bps".toList
  | .netRxBps => "net_rx_bps".toList
  | .netTxBps => "net_tx_bps".toList
  | .threads => "threads".toList
  | .procCount => "proc_count".toList

end Metric

inductive Op where
  | gt
  | lt
deriving DecidableEq,Inhabited

/-- A process pattern is a `comm`, or `*` for every process. -/
inductive Target where
  | system
  | process (pattern : Str)
deriving DecidableEq,Inhabited

namespace Target

def isMatch : Target → Str → Bool
  | .system,_ => false
  | .process p,comm => p == "*".toList || p == comm

def isProcess : Target → Bool
  | .system => false
  | .process _ => true

end Target

/-- `sustain` is in nanoseconds. The last two fields keep the sign of a bound that is the
negative zero: comparisons do not see it, the screen shows it. -/
structure Rule where
  name : Str
  target : Target
  metric : Metric
  op : Op
  threshold : F64
  sustain : Nat
  clear : F64
  thresholdMinus : Bool
  clearMinus : Bool
deriving DecidableEq,Inhabited

structure ParseError where
  lineNo : Nat
  line : Str
  reason : Str
deriving DecidableEq

section
variable (R : Rounding)

/-- Byte-valued metrics take a size with a suffix, or else a bare number. -/
def parseValue (tok : Str) (metric : Metric) : Option F64 :=
  if metric.isBytes then ((parseSize R tok).map (fun v => R.ofNat v.toNat)).or (F64.parse R tok)
  else F64.parse R tok

/-- Whether `parse_value` reads the negative zero, as it does from `-0` and from `-1e-400`. -/
def minusZero (tok : Str) (metric : Metric) : Bool :=
  !(metric.isBytes && (parseSize R tok).isSome) && tok.head? == some '-' && F64.parse R tok == some (.fin 0)

def orReason {α : Type} (reason : String) : Option α → Except Str α
  | some a => .ok a
  | none => .error reason.toList

def parseTarget (tok : Str) : Except Str Target :=
  if tok = "system".toList then .ok .system
  else match stripPrefix "process:".toList tok with
    | some p => if p.isEmpty then .error "empty process pattern".toList else .ok (.process p)
    | none => .error "target must be `system` or `process:<comm>` (or `process:*`)".toList

def parseOp (tok : Str) : Except Str Op :=
  if tok = ">".toList then .ok .gt
  else if tok = "<".toList then .ok .lt
  else .error "operator must be > or <".toList

/-- A deadband on the wrong side never clears. -/
def sane (op : Op) (threshold clear : F64) : Bool :=
  match op with
  | .gt => clear ≤ threshold
  | .lt => threshold ≤ clear

def parseClear (t : List Str) (metric : Metric) (op : Op) (threshold : F64) : Except Str F64 :=
  if t.length > 8 then
    if t.getD 8 [] ≠ "clear".toList ∨ t.length < 10 then
      .error "trailing tokens; expected `clear <value>`".toList
    else do
      let clear ← orReason "could not parse clear value" (parseValue R (t.getD 9 []) metric)
      if sane op threshold clear then return clear
      else .error "clear value is on the wrong side of the threshold; the alert could never clear".toList
  else .ok threshold

def parseTokens (t : List Str) : Except Str Rule :=
  if t.head? ≠ some "alert".toList then .error "expected a line beginning with `alert`".toList
  else if t.length < 8 then
    .error "too few fields; expected: alert <name> <target> <metric> <op> <value> for <dur>".toList
  else do
    let name := t.getD 1 []
    let target ← parseTarget (t.getD 2 [])
    let metric ← orReason "unknown metric" (Metric.parse (t.getD 3 []))
    if target.isProcess && !metric.appliesToProcess then
      .error "that metric is system-wide and cannot be scoped to a process".toList
    else do
      let op ← parseOp (t.getD 4 [])
      let threshold ← orReason "could not parse threshold value" (parseValue R (t.getD 5 []) metric)
      if t.getD 6 [] ≠ "for".toList then .error "expected keyword `for` before the duration".toList
      else do
        let sustain ← orReason "could not parse duration" (parseDuration R (t.getD 7 []))
        let clear ← parseClear R t metric op threshold
        -- without a clear value the threshold's is taken, with its sign
        let thresholdMinus := minusZero R (t.getD 5 []) metric
        let clearMinus := minusZero R (t.getD 9 (t.getD 5 [])) metric
        return {name,target,metric,op,threshold,sustain,clear,thresholdMinus,clearMinus}

def ruleText (raw : Str) : Str := trim ((raw.splitOn '#').head?.getD [])

/-- One turn of the loop: nothing for an empty line, else its rule or the reason
for the one error it reports. -/
def parseLine (raw : Str) : Option (Except Str Rule) :=
  if (ruleText raw).isEmpty then none
  else some (parseTokens R (splitAsciiWhitespace (ruleText raw)))

def record (acc : List Rule × List ParseError) (entry : Str × Nat) : List Rule × List ParseError :=
  match parseLine R entry.1 with
  | none => acc
  | some (.ok rule) => (acc.1 ++ [rule],acc.2)
  | some (.error reason) => (acc.1,acc.2 ++ [⟨entry.2+1,entry.1,reason⟩])

def parseRules (text : Str) : List Rule × List ParseError :=
  (lines text).zipIdx.foldl (record R) ([],[])

end
end Vitals.Kernel
