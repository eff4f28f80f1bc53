import Vitals.EngineRefinement
import Vitals.Library.Fallible

/-! What the parser of the rule file accepts, check by check. -/
namespace Vitals.RuleFile
open Kernel Semantics Text Fallible

variable (R : Rounding)

/-- Every check an accepted line has passed, and what each field of its rule is read from. -/
structure Accepts (t : List Str) (rule : Rule) : Prop where
  keyword : t.head? = some "alert".toList
  long : 8 ≤ t.length
  name : t.getD 1 [] = rule.name
  target : parseTarget (t.getD 2 []) = .ok rule.target
  metric : Metric.parse (t.getD 3 []) = some rule.metric
  applies : rule.target.isProcess = true → rule.metric.appliesToProcess = true
  op : parseOp (t.getD 4 []) = .ok rule.op
  threshold : parseValue R (t.getD 5 []) rule.metric = some rule.threshold
  preposition : t.getD 6 [] = "for".toList
  sustain : parseDuration R (t.getD 7 []) = some rule.sustain
  clear : parseClear R t rule.metric rule.op rule.threshold = .ok rule.clear
  thresholdMinus : minusZero R (t.getD 5 []) rule.metric = rule.thresholdMinus
  clearMinus : minusZero R (t.getD 9 (t.getD 5 [])) rule.metric = rule.clearMinus

private theorem orReason_ok {α : Type} {reason : String} {o : Option α} {a : α} :
    orReason reason o = .ok a ↔ o = some a := by
  cases o <;> simp [orReason]

theorem parseTokens_ok (t : List Str) (rule : Rule) : parseTokens R t = .ok rule ↔ Accepts R t rule := by
  constructor
  · intro ok
    obtain ⟨keyword,ok⟩ := guard_ok.mp ok
    obtain ⟨short,ok⟩ := guard_ok.mp ok
    obtain ⟨target,readTarget,ok⟩ := bind_ok.mp ok
    obtain ⟨metric,readMetric,ok⟩ := bind_ok.mp ok
    obtain ⟨scope,ok⟩ := guard_ok.mp ok
    obtain ⟨op,readOp,ok⟩ := bind_ok.mp ok
    obtain ⟨threshold,readThreshold,ok⟩ := bind_ok.mp ok
    obtain ⟨preposition,ok⟩ := guard_ok.mp ok
    obtain ⟨sustain,readSustain,ok⟩ := bind_ok.mp ok
    obtain ⟨clear,readClear,ok⟩ := bind_ok.mp ok
    obtain rfl := Except.ok.inj ok
    exact
      { keyword := not_not.mp keyword
        long := by omega
        name := rfl
        target := readTarget
        metric := orReason_ok.mp readMetric
        applies := by simpa using scope
        op := readOp
        threshold := orReason_ok.mp readThreshold
        preposition := not_not.mp preposition
        sustain := orReason_ok.mp readSustain
        clear := readClear
        thresholdMinus := rfl
        clearMinus := rfl }
  · intro accepts
    have short : ¬ t.length < 8 := by have := accepts.long; omega
    have scope : ¬ (rule.target.isProcess && !rule.metric.appliesToProcess) = true := by
      simpa using accepts.applies
    refine guard_ok.mpr ⟨not_not.mpr accepts.keyword,guard_ok.mpr ⟨short,?_⟩⟩
    refine bind_ok.mpr ⟨_,accepts.target,bind_ok.mpr ⟨_,orReason_ok.mpr accepts.metric,?_⟩⟩
    refine guard_ok.mpr ⟨scope,bind_ok.mpr ⟨_,accepts.op,?_⟩⟩
    refine bind_ok.mpr ⟨_,orReason_ok.mpr accepts.threshold,guard_ok.mpr ⟨not_not.mpr accepts.preposition,?_⟩⟩
    refine bind_ok.mpr ⟨_,orReason_ok.mpr accepts.sustain,bind_ok.mpr ⟨_,accepts.clear,?_⟩⟩
    rw [accepts.name,accepts.thresholdMinus,accepts.clearMinus]
    rfl

theorem parseClear_ok (t : List Str) (metric : Metric) (op : Op) (threshold clear : F64) :
    parseClear R t metric op threshold = .ok clear ↔
      t.length ≤ 8 ∧ clear = threshold ∨
        10 ≤ t.length ∧ t.getD 8 [] = "clear".toList ∧ parseValue R (t.getD 9 []) metric = some clear ∧
          sane op threshold clear = true := by
  unfold parseClear
  split_ifs with tail wrong
  · refine ⟨?_,?_⟩
    · intro ok
      cases ok
    · intro either
      rcases either with ⟨short,_⟩ | ⟨long,keyword,_⟩
      · omega
      · rcases wrong with other | short
        · exact absurd keyword other
        · omega
  · obtain ⟨keyword,long⟩ := not_or.mp wrong
    rw [bind_ok]
    refine ⟨?_,?_⟩
    · intro accepted
      obtain ⟨value,read,ok⟩ := accepted
      split_ifs at ok with side
      obtain rfl := Except.ok.inj ok
      exact .inr ⟨by omega,not_not.mp keyword,orReason_ok.mp read,side⟩
    · intro either
      rcases either with ⟨short,_⟩ | ⟨_,_,read,side⟩
      · omega
      · exact ⟨clear,orReason_ok.mpr read,if_pos side⟩
  · refine ⟨?_,?_⟩
    · intro ok
      exact .inl ⟨by omega,(Except.ok.inj ok).symm⟩
    · intro either
      rcases either with ⟨_,rfl⟩ | ⟨long,_⟩
      · rfl
      · omega

/-- The rule a line stands for, if any. -/
def ruleOf (raw : Str) : List Rule :=
  match parseLine R raw with
  | some (.ok rule) => [rule]
  | _ => []

/-- Why a line is refused, if it is. -/
def reasonOf (raw : Str) : List Str :=
  match parseLine R raw with
  | some (.error reason) => [reason]
  | _ => []

def errorOf (entry : Str × Nat) : List ParseError :=
  (reasonOf R entry.1).map (fun reason => ⟨entry.2+1,entry.1,reason⟩)

private theorem record_entry (acc : List Rule × List ParseError) (entry : Str × Nat) :
    record R acc entry = (acc.1 ++ ruleOf R entry.1,acc.2 ++ errorOf R entry) := by
  unfold record errorOf ruleOf reasonOf
  cases parseLine R entry.1 with
  | none => simp
  | some result => cases result <;> simp

/-- The loop goes through the lines one by one, and no line sees another. -/
theorem parseRules_lines (text : Str) :
    parseRules R text = ((lines text).flatMap (ruleOf R),(lines text).zipIdx.flatMap (errorOf R)) := by
  have gathered (entries : List (Str × Nat)) (acc : List Rule × List ParseError) :
      entries.foldl (record R) acc =
        (acc.1 ++ (entries.map Prod.fst).flatMap (ruleOf R),acc.2 ++ entries.flatMap (errorOf R)) := by
    induction entries generalizing acc with
    | nil => simp
    | cons entry rest ih => simp [ih,record_entry]
  rw [parseRules,gathered,List.zipIdx_map_fst,List.nil_append,List.nil_append]

private theorem mem_parseRules (text : Str) (rule : Rule) :
    rule ∈ (parseRules R text).1 ↔ ∃ raw ∈ lines text, parseLine R raw = some (.ok rule) := by
  rw [parseRules_lines,List.mem_flatMap]
  apply exists_congr
  intro raw
  apply and_congr_right
  intro _
  unfold ruleOf
  cases parseLine R raw with
  | none => simp
  | some result => cases result <;> simp [eq_comm]

theorem accepts_of_mem {text : Str} {rule : Rule} (member : rule ∈ (parseRules R text).1) :
    ∃ t, Accepts R t rule := by
  obtain ⟨raw,_,read⟩ := (mem_parseRules R text rule).mp member
  unfold parseLine at read
  split_ifs at read
  exact ⟨_,(parseTokens_ok R _ rule).mp (Option.some.inj read)⟩

/-- An accepted rule stays on while it breaches: its clear value defaults to the threshold
and is otherwise checked against it. -/
theorem nested_of_mem {text : Str} {rule : Rule} (member : rule ∈ (parseRules R text).1) :
    (alarm rule).Nested := by
  obtain ⟨t,accepts⟩ := accepts_of_mem R member
  rcases (parseClear_ok R t _ _ _ _).mp accepts.clear with ⟨_,same⟩ | ⟨_,_,_,side⟩
  · intro v trip
    simpa [breaching,stillActive,same] using trip
  · exact EngineRefinement.nested_of_sane side

end Vitals.RuleFile
