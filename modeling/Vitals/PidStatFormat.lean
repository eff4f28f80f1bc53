import Vitals.Semantics.KernelText

/-! The parser of `stat` against the kernel's own rendering. The first `(` and the last `)`
delimit the name whatever it contains, since the pid has no `(` and no later column a `)`. -/
namespace Vitals.PidStatFormat
open Kernel Semantics Text Decimal

private theorem opening_absent (pid : Int32) : '(' ∉ renderInt pid.toInt ++ [' '] := by
  intro member
  rcases List.mem_append.mp member with inside | blank
  · exact numeral_ne (numeral_of_mem_renderInt inside) (by decide) (by decide) rfl
  · simp at blank

private theorem closing_absent {state : Char} (other : state ≠ ')') (fields : List Column) :
    ')' ∉ ' ' :: state :: fields.flatMap (fun w => ' ' :: w.1) := by
  intro member
  rcases List.mem_cons.mp member with blank | member
  · exact absurd blank (by decide)
  rcases List.mem_cons.mp member with same | member
  · exact other same.symm
  obtain ⟨w,_,inside⟩ := List.mem_flatMap.mp member
  rcases List.mem_cons.mp inside with blank | inside
  · exact absurd blank (by decide)
  · exact w.2.2 inside

private theorem split_tail {state : Char} (ordinary : isAsciiWhitespace state = false) (fields : List Column)
    (ending : Str) (newline : ending = [] ∨ ending = ['\n']) :
    splitAsciiWhitespace (' ' :: state :: fields.flatMap (fun w => ' ' :: w.1) ++ ending) =
      [state] :: fields.map Subtype.val := by
  have words : ∀ w ∈ [state] :: fields.map Subtype.val, IsWord w := by
    intro w member
    rcases List.mem_cons.mp member with rfl | later
    · exact ⟨by simp,by simpa using ordinary⟩
    · obtain ⟨field,_,rfl⟩ := List.mem_map.mp later
      exact field.2.1
  have spaced := split_spaced ([state] :: fields.map Subtype.val) words
  rw [List.flatMap_cons,List.flatMap_map] at spaced
  rcases newline with rfl | rfl
  · rw [List.append_nil]
    exact spaced
  · rw [split_append_newline]
    exact spaced

/-- Any name is delimited, whatever stands in it. -/
theorem parsePidStat_delimited (pid : Int32) (comm tail : Str) (closed : ')' ∉ tail) :
    parsePidStat (renderInt pid.toInt ++ ' ' :: '(' :: (comm ++ ')' :: tail)) =
      statColumns pid comm (splitAsciiWhitespace tail) := by
  -- the same text, bracketed at its first `(` and at its last `)`
  have head : renderInt pid.toInt ++ ' ' :: '(' :: (comm ++ ')' :: tail) =
      (renderInt pid.toInt ++ [' ']) ++ '(' :: (comm ++ ')' :: tail) := by simp
  have whole : renderInt pid.toInt ++ ' ' :: '(' :: (comm ++ ')' :: tail) =
      (renderInt pid.toInt ++ ' ' :: '(' :: comm) ++ ')' :: tail := by simp
  have opening : find '(' (renderInt pid.toInt ++ ' ' :: '(' :: (comm ++ ')' :: tail)) =
      some (renderInt pid.toInt ++ [' ']).length := by
    rw [head]
    exact find_append _ (opening_absent pid)
  have closing : rfind ')' (renderInt pid.toInt ++ ' ' :: '(' :: (comm ++ ')' :: tail)) =
      some (renderInt pid.toInt ++ ' ' :: '(' :: comm).length := by
    rw [whole]
    exact rfind_append _ closed
  have ordered : ¬ (renderInt pid.toInt ++ ' ' :: '(' :: comm).length < (renderInt pid.toInt ++ [' ']).length := by
    simp
  have number : parseI32 (trim ((renderInt pid.toInt ++ ' ' :: '(' :: (comm ++ ')' :: tail)).take
      (renderInt pid.toInt ++ [' ']).length)) = some pid := by
    have bare := trim_word_space (isWord_renderInt pid.toInt).1
      (fun c member => numeral_not_whitespace (numeral_of_mem_renderInt member))
    rw [head,List.take_left,bare,parseI32_render]
  have name : ((renderInt pid.toInt ++ ' ' :: '(' :: (comm ++ ')' :: tail)).take
      (renderInt pid.toInt ++ ' ' :: '(' :: comm).length).drop ((renderInt pid.toInt ++ [' ']).length+1) = comm := by
    have before : renderInt pid.toInt ++ ' ' :: '(' :: comm = (renderInt pid.toInt ++ [' ','(']) ++ comm := by simp
    rw [whole,List.take_left,before]
    exact List.drop_left' (by simp)
  have after : (renderInt pid.toInt ++ ' ' :: '(' :: (comm ++ ')' :: tail)).drop
      ((renderInt pid.toInt ++ ' ' :: '(' :: comm).length+1) = tail := by
    have before : renderInt pid.toInt ++ ' ' :: '(' :: (comm ++ ')' :: tail) =
        ((renderInt pid.toInt ++ ' ' :: '(' :: comm) ++ [')']) ++ tail := by simp
    rw [before]
    exact List.drop_left' (by simp; omega)
  simp only [parsePidStat,opening,closing,Option.bind_eq_bind,Option.bind_some,if_neg ordered,number,name,after]

private theorem statColumns_short (pid : Int32) (comm : Str) (rest : List Str) (short : rest.length < 22) :
    statColumns pid comm rest = none := by
  have missing : rest[21]? = none := List.getElem?_eq_none (by omega)
  simp only [statColumns,missing,Option.bind_eq_bind,Option.bind_none,Option.bind_fun_none]

/-- Columns are counted, never guessed: too few words after the name make no process. -/
theorem parsePidStat_short (s : Str)
    (short : ∀ i, rfind ')' s = some i → (splitAsciiWhitespace (s.drop (i+1))).length < 22) :
    parsePidStat s = none := by
  unfold parsePidStat
  cases find '(' s with
  | none => rfl
  | some opening =>
    cases closing : rfind ')' s with
    | none => rfl
    | some i =>
      simp only [Option.bind_eq_bind,Option.bind_some]
      split_ifs
      · rfl
      · simp only [statColumns_short _ _ _ (short i closing),Option.bind_fun_none]

theorem statColumns_render (stat : PidStat) (fields : List Column) (columns : Columns fields stat) :
    statColumns stat.pid stat.comm ([stat.state] :: fields.map Subtype.val) = some stat := by
  have later (i : Nat) : ([stat.state] :: fields.map Subtype.val)[i+1]? = (fields[i]?).map Subtype.val := by
    rw [List.getElem?_cons_succ,List.getElem?_map]
  simp only [statColumns,later 0,later 10,later 11,later 16,later 18,later 19,later 20,
    columns.ppid,columns.utime,columns.stime,columns.numThreads,columns.starttime,columns.vsize,columns.rssPages,
    List.getElem?_cons_zero,List.head?_cons,Option.bind_eq_bind,Option.bind_some,
    parseI32_render,parseU64_render,parseI64_render]
  rfl

theorem parsePidStat_rendered (pid : Int32) (comm : Str) {state : Char} (fields : List Column)
    (ordinary : isAsciiWhitespace state = false) (apart : state ≠ ')') (ending : Str)
    (newline : ending = [] ∨ ending = ['\n']) :
    parsePidStat (renderPidStat pid comm state fields ++ ending) =
      statColumns pid comm ([state] :: fields.map Subtype.val) := by
  have shape : renderPidStat pid comm state fields ++ ending = renderInt pid.toInt ++ ' ' :: '(' ::
      (comm ++ ')' :: (' ' :: state :: fields.flatMap (fun w => ' ' :: w.1) ++ ending)) := by
    simp [renderPidStat]
  have closed : ')' ∉ ' ' :: state :: fields.flatMap (fun w => ' ' :: w.1) ++ ending := by
    intro member
    rcases List.mem_append.mp member with inside | last
    · exact closing_absent apart fields inside
    · rcases newline with rfl | rfl
      · cases last
      · exact absurd last (by decide)
  rw [shape,parsePidStat_delimited _ _ _ closed,split_tail ordinary fields ending newline]

/-- The parser inverts the rendering for every name, and never reads from a wrong column. -/
theorem parsePidStat_exact (stat : PidStat) (fields : List Column)
    (ordinary : isAsciiWhitespace stat.state = false) (apart : stat.state ≠ ')') (ending : Str)
    (newline : ending = [] ∨ ending = ['\n']) :
    (Columns fields stat →
      parsePidStat (renderPidStat stat.pid stat.comm stat.state fields ++ ending) = some stat) ∧
    (3+fields.length < 24 →
      parsePidStat (renderPidStat stat.pid stat.comm stat.state fields ++ ending) = none) ∧
    ∀ s, (∀ i, rfind ')' s = some i → 2+(splitAsciiWhitespace (s.drop (i+1))).length < 24) →
      parsePidStat s = none := by
  refine ⟨?_,?_,?_⟩
  · intro columns
    rw [parsePidStat_rendered _ _ fields ordinary apart ending newline]
    exact statColumns_render stat fields columns
  · intro few
    rw [parsePidStat_rendered _ _ fields ordinary apart ending newline]
    apply statColumns_short
    simp only [List.length_cons,List.length_map]
    omega
  · intro s few
    apply parsePidStat_short
    intro i closing
    have := few i closing
    omega

def numeral (z : Int) : Column :=
  ⟨renderInt z,isWord_renderInt z,fun member =>
    numeral_ne (numeral_of_mem_renderInt member) (by decide) (by decide) rfl⟩

theorem parsePidStat_exact_lookalike :
    parsePidStat (renderPidStat 7 ") R 1 2 (".toList 'S' ((List.range 21).map (fun i => numeral i)) ++ ['\n']) =
      some ⟨7,") R 1 2 (".toList,'S',0,10,11,16,18,19,20⟩ :=
  (parsePidStat_exact ⟨7,") R 1 2 (".toList,'S',0,10,11,16,18,19,20⟩ ((List.range 21).map (fun i => numeral i))
    (by decide) (by decide) ['\n'] (.inr rfl)).1 ⟨rfl,rfl,rfl,rfl,rfl,rfl,rfl⟩

end Vitals.PidStatFormat
