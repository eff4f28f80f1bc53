import Vitals.Semantics.KernelText

/-! The parser of `net/dev` against the kernel's table. The name ends at the first colon,
which no name contains, so that a counter touching it is never read as part of the name. -/
namespace Vitals.NetDevFormat
open Kernel Semantics Text Decimal

def device (row : NetRow) : NetDev :=
  { name := row.name
    rxBytes := row.counters.getD 0 0
    rxPackets := row.counters.getD 1 0
    rxErrs := row.counters.getD 2 0
    rxDrop := row.counters.getD 3 0
    txBytes := row.counters.getD 8 0
    txPackets := row.counters.getD 9 0
    txErrs := row.counters.getD 10 0
    txDrop := row.counters.getD 11 0 }

private theorem sixteen (row : NetRow) : 16 ≤ row.counters.length := by
  have enough := row.enough
  simpa only [NetRow.counters,List.length_cons,List.length_map] using enough

private theorem shows_device (row : NetRow) : row.Shows (device row) := by
  have present (i : Nat) (inside : i < 16) : row.counters[i]? = some (row.counters.getD i 0) := by
    have bound := Nat.lt_of_lt_of_le inside (sixteen row)
    rw [List.getD_eq_getElem?_getD,List.getElem?_eq_getElem bound,Option.getD_some]
  exact ⟨rfl,present 0 (by omega),present 1 (by omega),present 2 (by omega),present 3 (by omega),
    present 8 (by omega),present 9 (by omega),present 10 (by omega),present 11 (by omega)⟩

private theorem name_trimmed (row : NetRow) : trim (row.padding ++ row.name) = row.name := by
  obtain ⟨first,rest,shape⟩ := List.exists_cons_of_ne_nil row.named
  have head : row.name.head? = some first := by rw [shape]; rfl
  have ordinary : ∀ c ∈ row.name, isWhitespace c = false := fun c member => (row.plain c member).2
  exact trim_blanks row.blank head (ordinary first (by simp [shape])) (rdropWhile_ordinary ordinary)

private theorem colon_absent (row : NetRow) : ':' ∉ row.padding ++ row.name := by
  intro member
  rcases List.mem_append.mp member with padding | name
  · have blank := row.blank ':' padding
    revert blank
    decide
  · exact (row.plain ':' name).1 rfl

private theorem split_counters (row : NetRow) :
    splitAsciiWhitespace (List.replicate row.gap ' ' ++ (renderNat row.first.toNat ++
      row.later.flatMap (fun e => List.replicate (e.1+1) ' ' ++ renderNat e.2.toNat))) =
      row.counters.map (fun n => renderNat n.toNat) := by
  have words : ∀ e ∈ row.later.map (fun e => (e.1,renderNat e.2.toNat)), IsWord e.2 := by
    intro e member
    obtain ⟨_,_,rfl⟩ := List.mem_map.mp member
    exact isWord_renderNat _
  have apart := columns_apart (row.later.map (fun e => (e.1,renderNat e.2.toNat)))
  have columns := split_columns _ words
  rw [List.flatMap_map] at apart columns
  rw [split_blanks,split_word_before (isWord_renderNat _) apart,columns]
  simp [NetRow.counters]

private theorem netDevLine_row (row : NetRow) : netDevLine row.text = some (device row) := by
  have cut : splitOnce ':' row.text = some (row.padding ++ row.name,_) := splitOnce_append _ (colon_absent row)
  have values : (splitAsciiWhitespace (List.replicate row.gap ' ' ++ (renderNat row.first.toNat ++
      row.later.flatMap (fun e => List.replicate (e.1+1) ' ' ++ renderNat e.2.toNat)))).map
      (fun t => (parseU64 t).getD 0) = row.counters := by
    rw [split_counters,parse_rendered]
  have complete : ¬ row.counters.length < 16 := Nat.not_lt.mpr (sixteen row)
  simp only [netDevLine,cut,values,if_neg complete,name_trimmed,device]

private theorem incomplete_iff (line : Str) : Incomplete line ↔
    ∀ halves, splitOnce ':' line = some halves → (splitAsciiWhitespace halves.2).length < 16 := by
  refine ⟨?_,?_⟩
  · intro incomplete halves cut
    obtain ⟨whole,unsplit⟩ := of_splitOnce cut
    exact incomplete halves.1 halves.2 whole unsplit
  · rintro few name rest rfl unsplit
    exact few (name,rest) (splitOnce_append rest unsplit)

private theorem netDevLine_incomplete {line : Str} (incomplete : Incomplete line) : netDevLine line = none := by
  unfold netDevLine
  cases cut : splitOnce ':' line with
  | none => rfl
  | some halves =>
    have few := (incomplete_iff line).mp incomplete halves cut
    simp [few]

private theorem netDevLine_text (item : NetLine) : netDevLine item.text = item.iface?.map device := by
  cases item with
  | iface row => exact netDevLine_row row
  | other line => exact netDevLine_incomplete line.2

theorem shows_table {s first second : Str} {items : List NetLine}
    (text : lines s = first :: second :: items.map NetLine.text) :
    List.Forall₂ NetRow.Shows (items.filterMap NetLine.iface?) (parseNetDev s) := by
  have devices : parseNetDev s = (items.filterMap NetLine.iface?).map device := by
    rw [parseNetDev,text,List.drop_succ_cons,List.drop_succ_cons,List.drop_zero,List.filterMap_map,List.map_filterMap]
    exact List.filterMap_congr (fun item _ => netDevLine_text item)
  rw [devices,List.forall₂_map_right_iff]
  exact List.forall₂_same.mpr (fun row _ => shows_device row)

/-- Every interface is read, in order and from its own columns, and nothing else is. -/
theorem parseNetDev_exact {s first second : Str} {items : List NetLine}
    (text : lines s = first :: second :: items.map NetLine.text) :
    List.Forall₂ NetRow.Shows (items.filterMap NetLine.iface?) (parseNetDev s) :=
  shows_table text

def glued : NetRow where
  padding := [' ',' ']
  blank := fun _ member => @blank_of_mem_replicate 2 _ member
  name := ['e','t','h','0']
  named := List.cons_ne_nil _ _
  plain := by simp [isWhitespace,isAsciiWhitespace]
  gap := 0
  first := 18446744073709551615
  later := (List.range 15).map (fun i => (i%2,UInt64.ofNat i))
  enough := by decide

private theorem few_counters : Incomplete "lo: 1 2".toList := by
  rw [incomplete_iff]
  intro halves cut
  have found : splitOnce ':' "lo: 1 2".toList = some ("lo".toList," 1 2".toList) := by decide +kernel
  obtain rfl := Option.some.inj (found.symm.trans cut)
  decide +kernel

theorem parseNetDev_exact_glued : List.Forall₂ NetRow.Shows [glued]
    (parseNetDev "Inter-|\n face |\nlo: 1 2\n  eth0:18446744073709551615 0  1 2  3 4  5 6  7 8  9 10  11 12  13 14\n".toList) :=
  @parseNetDev_exact _ "Inter-|".toList " face |".toList [.other ⟨"lo: 1 2".toList,few_counters⟩,.iface glued]
    (by decide +kernel)

end Vitals.NetDevFormat
