import Vitals.RuleFile
import Vitals.Semantics.RuleGrammar
import Vitals.Library.Records
import Mathlib.Data.List.GetD

/-! The parser of the rule file against the documented grammar. Token by token they agree;
only what follows the tenth token is never looked at. -/
namespace Vitals.RuleFileGrammar
open Kernel Semantics Text RuleFile Records

private theorem parseTarget_iff (tok : Str) (target : Target) :
    parseTarget tok = .ok target ↔ TargetToken tok target := by
  unfold parseTarget
  constructor
  · intro ok
    split_ifs at ok with system
    · obtain rfl := Except.ok.inj ok
      rw [system]
      exact .system
    · cases stripped : stripPrefix "process:".toList tok with
      | none => simp only [stripped,reduceCtorEq] at ok
      | some pattern =>
        rw [(stripPrefix_eq_some _ _ _).mp stripped]
        simp only [stripped] at ok
        split_ifs at ok with empty
        obtain rfl := Except.ok.inj ok
        exact .process _ (by simpa using empty)
  · intro token
    cases token with
    | system => rfl
    | process pattern nonempty =>
      have other : "process:".toList ++ pattern ≠ "system".toList := by
        intro same
        exact absurd (congrArg List.head? same) (by simp)
      have stripped := (stripPrefix_eq_some "process:".toList ("process:".toList ++ pattern) pattern).mpr rfl
      have present : pattern.isEmpty = false := by simpa using nonempty
      simp only [if_neg other,stripped,present,Bool.false_eq_true,if_false]

private theorem metricNames_distinct : (metricNames.map Prod.fst).Nodup := by decide +kernel

/-- The comparisons of the source are a table in its order. -/
theorem parse_eq_lookup (tok : Str) : Metric.parse tok = metricNames.lookup tok := by
  have turn (name : Str) (metric : Metric) (rest : List (Str × Metric)) :
      ((name,metric) :: rest).lookup tok = if tok = name then some metric else rest.lookup tok := by
    rw [List.lookup_cons]
    by_cases same : tok = name
    · rw [if_pos same,beq_iff_eq.mpr same]
    · rw [if_neg same,beq_eq_false_iff_ne.mpr same]
  simp only [Metric.parse,metricNames,turn,List.lookup_nil,ite_or]

private theorem metric_iff (tok : Str) (metric : Metric) :
    Metric.parse tok = some metric ↔ (tok,metric) ∈ metricNames := by
  rw [parse_eq_lookup,lookup_iff_mem metricNames_distinct]

private theorem applies_iff (metric : Metric) : metric.appliesToProcess = true ↔ metric ∈ processMetrics := by
  cases metric <;> decide

private theorem parseOp_iff (tok : Str) (op : Op) : parseOp tok = .ok op ↔ OpToken tok op := by
  unfold parseOp
  refine ⟨?_,?_⟩
  · intro ok
    split_ifs at ok with greater less
    · obtain rfl := Except.ok.inj ok
      rw [greater]
      exact .gt
    · obtain rfl := Except.ok.inj ok
      rw [less]
      exact .lt
  · intro token
    cases token <;> rfl

private theorem sane_iff (op : Op) (threshold clear : F64) :
    sane op threshold clear = true ↔ Clears op threshold clear := by
  cases op <;> simp [sane,Clears]

variable (R : Rounding)

private theorem parseClear_iff {head tail : List Str} (eight : head.length = 8) (short : tail.length ≤ 2)
    (metric : Metric) (op : Op) (threshold clear : F64) :
    parseClear R (head ++ tail) metric op threshold = .ok clear ↔ ClearTail R metric op threshold tail clear := by
  have cell (i : Nat) : (head ++ tail).getD (8+i) [] = tail.getD i [] := by
    rw [List.getD_append_right _ _ _ _ (by omega),eight,Nat.add_sub_cancel_left]
  rw [parseClear_ok,List.length_append,eight,show (head ++ tail).getD 8 [] = _ from cell 0,
    show (head ++ tail).getD 9 [] = _ from cell 1]
  refine ⟨?_,?_⟩
  · intro read
    rcases read with ⟨none,rfl⟩ | ⟨two,keyword,value,side⟩
    · obtain rfl : tail = [] := List.eq_nil_of_length_eq_zero (by omega)
      exact .absent
    · obtain ⟨first,second,rfl⟩ := List.length_eq_two.mp (show tail.length = 2 by omega)
      obtain rfl : first = "clear".toList := keyword
      exact .given second clear value ((sane_iff op threshold clear).mp side)
  · intro token
    cases token with
    | absent => exact .inl ⟨by simp,rfl⟩
    | given value clear denotes side =>
      exact .inr ⟨by simp,rfl,denotes,(sane_iff op threshold clear).mpr side⟩

private theorem eight_tokens {t : List Str} (long : 8 ≤ t.length) :
    ∃ a b c d e f g h tail, t = [a,b,c,d,e,f,g,h] ++ tail := by
  match t,long with
  | a::b::c::d::e::f::g::h::tail,_ => exact ⟨a,b,c,d,e,f,g,h,tail,rfl⟩

private theorem accepts_iff_line {t : List Str} (short : t.length ≤ 10) (rule : Rule) :
    Accepts R t rule ↔ RuleLine R t rule := by
  refine ⟨?_,?_⟩
  · intro accepts
    obtain ⟨a,name,target,metric,op,value,g,duration,tail,rfl⟩ := eight_tokens accepts.long
    obtain rfl : a = "alert".toList := Option.some.inj accepts.keyword
    obtain rfl : g = "for".toList := accepts.preposition
    have two : tail.length ≤ 2 := by simp at short; omega
    exact .line name target metric op value duration tail rule accepts.name
      ((parseTarget_iff _ _).mp accepts.target) ((metric_iff _ _).mp accepts.metric)
      (fun process => (applies_iff _).mp (accepts.applies process)) ((parseOp_iff _ _).mp accepts.op)
      accepts.threshold accepts.sustain ((parseClear_iff R rfl two _ _ _ _).mp accepts.clear)
      ⟨accepts.thresholdMinus.symm,accepts.clearMinus.symm⟩
  · intro line
    cases line with
    | line name target metric op value duration tail _ named scope measure applies compare threshold sustain clear signs =>
      have two : tail.length ≤ 2 := by simp at short; omega
      exact
        { keyword := rfl
          long := by simp
          name := named
          target := (parseTarget_iff _ _).mpr scope
          metric := (metric_iff _ _).mpr measure
          applies := fun process => (applies_iff _).mpr (applies process)
          op := (parseOp_iff _ _).mpr compare
          threshold := threshold
          preposition := rfl
          sustain := sustain
          clear := (parseClear_iff R rfl two _ _ _ _).mpr clear
          thresholdMinus := signs.1.symm
          clearMinus := signs.2.symm }

private theorem tail_length {metric : Metric} {op : Op} {threshold clear : F64} {tail : List Str}
    (token : ClearTail R metric op threshold tail clear) : tail.length ≤ 2 := by
  cases token <;> simp

private theorem length_of_line {t : List Str} {rule : Rule} (line : RuleLine R t rule) : t.length ≤ 10 := by
  cases line with
  | line name target metric op value duration tail _ named scope measure applies compare threshold sustain clear signs =>
    have two := tail_length R clear
    simp
    omega

private theorem accepts_congr {t u : List Str} {rule : Rule} (longT : 10 ≤ t.length) (longU : 10 ≤ u.length)
    (cells : ∀ i, i < 10 → t.getD i [] = u.getD i []) (accepts : Accepts R t rule) : Accepts R u rule where
  keyword := by
    have same := cells 0 (by omega)
    have keyword := accepts.keyword
    cases t with
    | nil => cases keyword
    | cons a t =>
      cases u with
      | nil => simp at longU
      | cons b u =>
        obtain rfl : a = b := same
        exact keyword
  long := by omega
  name := by rw [← cells 1 (by omega)]; exact accepts.name
  target := by rw [← cells 2 (by omega)]; exact accepts.target
  metric := by rw [← cells 3 (by omega)]; exact accepts.metric
  applies := accepts.applies
  op := by rw [← cells 4 (by omega)]; exact accepts.op
  threshold := by rw [← cells 5 (by omega)]; exact accepts.threshold
  preposition := by rw [← cells 6 (by omega)]; exact accepts.preposition
  sustain := by rw [← cells 7 (by omega)]; exact accepts.sustain
  clear := by
    rcases (parseClear_ok R t _ _ _ _).mp accepts.clear with ⟨short,_⟩ | ⟨_,keyword,value,side⟩
    · omega
    · rw [cells 8 (by omega)] at keyword
      rw [cells 9 (by omega)] at value
      exact (parseClear_ok R u _ _ _ _).mpr (.inr ⟨longU,keyword,value,side⟩)
  thresholdMinus := by rw [← cells 5 (by omega)]; exact accepts.thresholdMinus
  clearMinus := by
    have tenth {v : List Str} (long : 10 ≤ v.length) (d : Str) : v.getD 9 d = v.getD 9 [] := by
      rw [List.getD_eq_getElem _ _ long,List.getD_eq_getElem _ _ long]
    have minus := accepts.clearMinus
    rwa [tenth longT,cells 9 (by omega),← tenth longU (u.getD 5 [])] at minus

private theorem accepts_take {t : List Str} (long : 10 < t.length) (rule : Rule) :
    Accepts R (t.take 10) rule ↔ Accepts R t rule := by
  have ten : 10 ≤ (t.take 10).length := by simp; omega
  have cells (i : Nat) (inside : i < 10) : (t.take 10).getD i [] = t.getD i [] := by
    simp only [List.getD,List.getElem?_take_of_lt inside]
  exact ⟨accepts_congr R ten (by omega) cells,
    accepts_congr R (by omega) ten (fun i inside => (cells i inside).symm)⟩

private theorem record_tokens {raw : Str} (present : ruleText raw ≠ []) (rules : List Rule) (errs : List ParseError)
    (i : Nat) : record R (rules,errs) (raw,i) = match parseTokens R (tokens raw) with
      | .ok rule => (rules ++ [rule],errs)
      | .error reason => (rules,errs ++ [⟨i+1,raw,reason⟩]) := by
  have filled : (ruleText raw).isEmpty = false := by simpa using present
  simp only [record,parseLine,filled,Bool.false_eq_true,if_false,tokens]
  cases parseTokens R (splitAsciiWhitespace (ruleText raw)) <;> rfl

private theorem record_accepts {raw : Str} (present : ruleText raw ≠ []) (rules : List Rule) (errs : List ParseError)
    (i : Nat) (rule : Rule) :
    record R (rules,errs) (raw,i) = (rules ++ [rule],errs) ↔ Accepts R (tokens raw) rule := by
  rw [record_tokens R present,← parseTokens_ok]
  cases parseTokens R (tokens raw) with
  | ok other => simp
  | error reason => simp

private theorem record_refuses {raw : Str} (present : ruleText raw ≠ []) (rules : List Rule) (errs : List ParseError)
    (i : Nat) (refused : ¬ ∃ rule, Accepts R (tokens raw) rule) :
    ∃ reason, record R (rules,errs) (raw,i) = (rules,errs ++ [⟨i+1,raw,reason⟩]) := by
  rw [record_tokens R present]
  cases parsed : parseTokens R (tokens raw) with
  | ok rule => exact absurd ⟨rule,(parseTokens_ok R _ rule).mp parsed⟩ refused
  | error reason => exact ⟨reason,rfl⟩

private theorem accepts_iff_complete {t : List Str}
    (complete : ¬ (10 < t.length ∧ ∃ rule, RuleLine R (t.take 10) rule))
    (rule : Rule) : Accepts R t rule ↔ RuleLine R t rule := by
  by_cases short : t.length ≤ 10
  · exact accepts_iff_line R short rule
  -- a longer line is accepted for its first ten tokens, which `complete` rules out
  · refine ⟨?_,?_⟩
    · intro accepts
      rw [← accepts_take R (by omega)] at accepts
      exact absurd ⟨by omega,rule,(accepts_iff_line R (by simp) rule).mp accepts⟩ complete
    · intro line
      exact absurd (length_of_line R line) short

/-- One turn of the loop accepts a line, reads a rule from it and refuses every other
line, as the grammar has it, exactly unless tokens follow a line that is complete. -/
theorem record_exact (raw : Str) (present : ruleText raw ≠ []) :
    (∀ rules errs i,
      (∀ rule, record R (rules,errs) (raw,i) = (rules ++ [rule],errs) ↔ RuleLine R (tokens raw) rule) ∧
        ((¬ ∃ rule, RuleLine R (tokens raw) rule) →
          ∃ reason, record R (rules,errs) (raw,i) = (rules,errs ++ [⟨i+1,raw,reason⟩]))) ↔
      ¬ (10 < (tokens raw).length ∧ ∃ rule, RuleLine R ((tokens raw).take 10) rule) := by
  refine ⟨?_,?_⟩
  · intro exact extra
    obtain ⟨long,rule,line⟩ := extra
    have accepts : Accepts R (tokens raw) rule := by
      rw [← accepts_take R long]
      exact (accepts_iff_line R (length_of_line R line) rule).mpr line
    have whole := ((exact [] [] 0).1 rule).mp ((record_accepts R present [] [] 0 rule).mpr accepts)
    exact absurd (length_of_line R whole) (by omega)
  · intro complete rules errs i
    have agrees := accepts_iff_complete R complete
    refine ⟨fun rule => (record_accepts R present rules errs i rule).trans (agrees rule),?_⟩
    intro refused
    simp only [← agrees] at refused
    exact record_refuses R present rules errs i refused

example : (parseRules .exact "alert idle system cpu > -0 for 0s".toList).1.map Rule.thresholdMinus = [true] := by
  decide +kernel

def hotLine : Str := "alert hot system cpu_pct > 80 for 5s clear 60 # busy".toList

def junkLine : Str := "alert hot system cpu_pct > 80 for 5s clear 60 junk".toList

def hotRule : Rule := ⟨"hot".toList,.system,.cpuPct,.gt,.fin 80,5*10^9,.fin 60,false,false⟩

theorem record_exact_hot : RuleLine .exact (tokens hotLine) hotRule := by
  have ten : (tokens hotLine).length = 10 := by decide +kernel
  have read : record .exact ([],[]) (hotLine,0) = ([hotRule],[]) := by decide +kernel
  exact (((record_exact .exact hotLine (by decide +kernel)).mpr (by rw [ten]; omega) [] [] 0).1 hotRule).mp read

theorem junk_accepted : ¬ ∀ rule, record .exact ([],[]) (junkLine,0) = ([rule],[]) ↔
    RuleLine .exact (tokens junkLine) rule := by
  intro exact
  have accepted : record .exact ([],[]) (junkLine,0) =
      ([hotRule],[]) := by decide +kernel
  have eleven : (tokens junkLine).length = 11 := by decide +kernel
  have line := (exact _).mp accepted
  exact absurd (length_of_line .exact line) (by omega)

end Vitals.RuleFileGrammar
