import Vitals.Kernel.Rules

/-! The documented grammar of a rule line,
`alert <name> <target> <metric> <op> <value> for <duration> [clear <value>]`, over its tokens. -/
namespace Vitals.Semantics
open Kernel Text

inductive TargetToken : Str → Target → Prop
  | system : TargetToken "system".toList .system
  | process (pattern : Str) (nonempty : pattern ≠ []) :
      TargetToken ("process:".toList ++ pattern) (.process pattern)

def metricNames : List (Str × Metric) :=
  [("cpu_pct".toList,.cpuPct),("cpu".toList,.cpuPct),("mem_pct".toList,.memPct),("rss".toList,.rss),
  ("rss_bytes".toList,.rss),("mem".toList,.rss),("read_bps".toList,.readBps),("write_bps".toList,.writeBps),
  ("net_rx_bps".toList,.netRxBps),("net_tx_bps".toList,.netTxBps),("threads".toList,.threads),
  ("proc_count".toList,.procCount)]

def processMetrics : List Metric := [.cpuPct,.rss,.readBps,.writeBps,.threads]

inductive OpToken : Str → Op → Prop
  | gt : OpToken ">".toList .gt
  | lt : OpToken "<".toList .lt

/-- A clear value at which an alert that has fired can still end. -/
def Clears (op : Op) (threshold clear : F64) : Prop :=
  match op with
  | .gt => clear ≤ threshold
  | .lt => threshold ≤ clear

variable (R : Rounding)

inductive ClearTail (metric : Metric) (op : Op) (threshold : F64) : List Str → F64 → Prop
  | absent : ClearTail metric op threshold [] threshold
  | given (value : Str) (clear : F64) (denotes : parseValue R value metric = some clear)
      (side : Clears op threshold clear) : ClearTail metric op threshold ["clear".toList,value] clear

inductive RuleLine : List Str → Rule → Prop
  | line (name target metric op value duration : Str) (tail : List Str) (rule : Rule)
      (named : name = rule.name) (scope : TargetToken target rule.target)
      (measure : (metric,rule.metric) ∈ metricNames)
      (applies : rule.target.isProcess = true → rule.metric ∈ processMetrics)
      (compare : OpToken op rule.op) (threshold : parseValue R value rule.metric = some rule.threshold)
      (sustain : parseDuration R duration = some rule.sustain)
      (clear : ClearTail R rule.metric rule.op rule.threshold tail rule.clear)
      (signs : rule.thresholdMinus = minusZero R value rule.metric ∧
        rule.clearMinus = minusZero R (tail.getD 1 value) rule.metric) :
      RuleLine (["alert".toList,name,target,metric,op,value,"for".toList,duration] ++ tail) rule

def tokens (raw : Str) : List Str := splitAsciiWhitespace (ruleText raw)

end Vitals.Semantics
