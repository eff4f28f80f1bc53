import Vitals.RuleFile

/-! The rule file line by line: what the parser returns for a text is put together from
what it returns for each line alone. -/
namespace Vitals.RuleFileLines
open Kernel Text RuleFile

variable (R : Rounding)

theorem parseRules_line {line : Str} (unbroken : '\n' ∉ line) :
    parseRules R line = (ruleOf R line,(reasonOf R line).map (fun reason => ⟨1,line,reason⟩)) := by
  rw [parseRules_lines,lines_single unbroken]
  by_cases empty : line = []
  · subst empty
    rfl
  · simp [empty,errorOf]

private theorem parseRules_joined {ls : List Str} (plain : ∀ line ∈ ls, '\n' ∉ line ∧ line.getLast? ≠ some '\r') :
    parseRules R (['\n'].intercalate ls) = (ls.flatMap (ruleOf R),ls.zipIdx.flatMap (errorOf R)) := by
  rcases ls.eq_nil_or_concat with rfl | ⟨init,last,rfl⟩
  · rfl
  · rw [List.concat_eq_append] at plain ⊢
    rw [parseRules_lines,lines_intercalate plain]
    by_cases empty : last = []
    · -- an empty last line is not read, and would come to nothing
      have rule : ruleOf R [] = [] := rfl
      have error (i : Nat) : errorOf R ([],i) = [] := rfl
      simp [empty,List.zipIdx_append,rule,error]
    · simp [empty]

private theorem parseLine_blank {line : Str} (blank : ruleText line = []) : parseLine R line = none := by
  simp [parseLine,blank]

private theorem parseLine_present {line : Str} (present : ruleText line ≠ []) :
    ∃ result, parseLine R line = some result := by
  have filled : (ruleText line).isEmpty = false := by simpa using present
  exact ⟨_,by rw [parseLine,filled]; rfl⟩

/-- A text is parsed line by line: a line neither hides, repeats nor renumbers what comes
of another, and it comes to one rule or one error unless it is blank. -/
theorem lines_local (ls : List Str) (plain : ∀ line ∈ ls, '\n' ∉ line ∧ line.getLast? ≠ some '\r') :
    let text := ['\n'].intercalate ls
    (parseRules R text).1 = ls.flatMap (fun line => (parseRules R line).1) ∧
    (parseRules R text).2 = ls.zipIdx.flatMap (fun entry =>
      (parseRules R entry.1).2.map (fun e => ⟨entry.2+1,entry.1,e.reason⟩)) ∧
    ∀ line ∈ ls,
      (ruleText line = [] → parseRules R line = ([],[])) ∧
      (ruleText line ≠ [] → (∃ rule, parseRules R line = ([rule],[])) ∨
        ∃ reason, parseRules R line = ([],[⟨1,line,reason⟩])) := by
  intro text
  have rules : ls.flatMap (fun line => (parseRules R line).1) = ls.flatMap (ruleOf R) :=
    List.flatMap_congr (fun line member => by rw [parseRules_line R (plain line member).1])
  have errors : ls.zipIdx.flatMap (fun entry =>
      (parseRules R entry.1).2.map (fun e => ⟨entry.2+1,entry.1,e.reason⟩)) = ls.zipIdx.flatMap (errorOf R) := by
    apply List.flatMap_congr
    intro entry member
    rw [parseRules_line R (plain entry.1 (List.fst_mem_of_mem_zipIdx member)).1]
    simp [errorOf]
  refine ⟨?_,?_,?_⟩
  · rw [rules,parseRules_joined R plain]
  · rw [errors,parseRules_joined R plain]
  · intro line member
    rw [parseRules_line R (plain line member).1]
    refine ⟨?_,?_⟩
    · intro blank
      simp [ruleOf,reasonOf,parseLine_blank R blank]
    · intro present
      obtain ⟨result,read⟩ := parseLine_present R present
      cases result with
      | ok rule => exact .inl ⟨rule,by simp [ruleOf,reasonOf,read]⟩
      | error reason => exact .inr ⟨reason,by simp [ruleOf,reasonOf,read]⟩

theorem lines_local_mixed : (parseRules .exact (['\n'].intercalate ["alert hot system cpu > 80 for 5s".toList,
      "# idle".toList,"warn hot".toList])).1 = [⟨"hot".toList,.system,.cpuPct,.gt,.fin 80,5*10^9,.fin 80,false,false⟩] := by
  have first : (parseRules .exact "alert hot system cpu > 80 for 5s".toList).1 =
      [⟨"hot".toList,.system,.cpuPct,.gt,.fin 80,5*10^9,.fin 80,false,false⟩] := by decide +kernel
  have second : (parseRules .exact "# idle".toList).1 = [] := by decide +kernel
  have third : (parseRules .exact "warn hot".toList).1 = [] := by decide +kernel
  rw [(lines_local .exact _ (by decide)).1]
  simp only [List.flatMap_cons,List.flatMap_nil,first,second,third,List.append_nil]

end Vitals.RuleFileLines
