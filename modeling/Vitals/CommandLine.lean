import Vitals.Kernel.Main
import Vitals.RuleFileLines

/-! The command line read back: options in any order, with their values, come to what each of
them says, and a rule file is taken or refused line by line. -/
namespace Vitals.CommandLine
open Kernel Text Decimal

inductive Item where
  | given (key value : Str)
  | switch (key : Str)
deriving DecidableEq

def Item.words : Item → List Str
  | .given key value => [key,value]
  | .switch key => [key]

def words (items : List Item) : List Str := items.flatMap Item.words

def valuedKeys : List Str :=
  ["--interval","--top","--proc-root","--duration","--rules"].map String.toList

def switches : List Str := ["--json","--once","--sockets","--help","-h"].map String.toList

/-- The keys are known ones and no value looks like a key. -/
def Item.Proper : Item → Prop
  | .given key value => key ∈ valuedKeys ∧ value ∉ valuedKeys ∧ value ∉ switches
  | .switch key => key ∈ switches

def Item.valueOf (k : Str) : Item → Option Str
  | .given key value => if key = k then some value else none
  | .switch _ => none

/-- An option that is repeated says the same each time. -/
def Consistent (items : List Item) : Prop := ∀ key v v', .given key v ∈ items → .given key v' ∈ items → v = v'

section
variable {items items' : List Item} {k x : Str} {rest : List Str}

private theorem flag_here (k : Str) (rest : List Str) : flag (k :: rest) k = rest.head? := by
  rw [flag,List.findIdx?_cons]
  simp [List.head?_eq_getElem?]

private theorem flag_later (other : x ≠ k) (rest : List Str) : flag (x :: rest) k = flag rest k := by
  rw [flag,flag,List.findIdx?_cons]
  simp [other,Option.bind_map]

private theorem keys_apart (valued : k ∈ valuedKeys) : k ∉ switches := by
  have apart : (valuedKeys.all (fun k => !switches.contains k)) = true := by decide +kernel
  simpa using List.all_eq_true.mp apart k valued

variable (proper : ∀ item ∈ items, item.Proper) {lone : Option Str} (bare : ∀ key ∈ lone, key ∈ valuedKeys)
include proper bare

private theorem flag_words (valued : k ∈ valuedKeys) :
    flag (words items ++ lone.toList) k = items.findSome? (Item.valueOf k) := by
  induction items with
  | nil =>
    cases lone with
    | none => rfl
    | some key =>
      by_cases same : key = k
      · subst same
        exact flag_here _ []
      · exact flag_later same []
  | cons item items ih =>
    obtain ⟨first,others⟩ := List.forall_mem_cons.mp proper
    have later := ih others
    cases item with
    | given key value =>
      by_cases same : key = k
      · subst same
        change flag (key :: value :: (words items ++ lone.toList)) key = _
        rw [flag_here]
        simp [Item.valueOf]
      · change flag (key :: value :: (words items ++ lone.toList)) k = _
        have apart : value ≠ k := by
          rintro rfl
          exact first.2.1 valued
        rw [flag_later same,flag_later apart,later]
        simp [Item.valueOf,same]
    | switch key =>
      have apart : key ≠ k := by
        rintro rfl
        exact keys_apart valued first
      change flag (key :: (words items ++ lone.toList)) k = _
      rw [flag_later apart]
      exact later

private theorem has_words (switch : k ∈ switches) :
    has (words items ++ lone.toList) k = items.contains (.switch k) := by
  have listed : has (words items ++ lone.toList) k = true ↔ k ∈ words items ++ lone.toList := by simp [has]
  rw [Bool.eq_iff_iff,listed,List.contains_iff_mem]
  constructor
  · intro member
    rcases List.mem_append.mp member with word | last
    · obtain ⟨item,inside,word⟩ := List.mem_flatMap.mp word
      have known := proper item inside
      cases item with
      | given key value =>
        rcases List.mem_pair.mp word with rfl | rfl
        · exact absurd switch (keys_apart known.1)
        · exact absurd switch known.2.2
      | switch key =>
        obtain rfl := List.mem_singleton.mp word
        exact inside
    · exact absurd switch (keys_apart (bare k (Option.mem_toList.mp last)))
  · intro inside
    exact List.mem_append_left _ (List.mem_flatMap.mpr ⟨_,inside,List.mem_singleton_self k⟩)

end

private theorem value_iff {items : List Item} (consistent : Consistent items) (k v : Str) :
    items.findSome? (Item.valueOf k) = some v ↔ .given k v ∈ items := by
  have shows (item : Item) (u : Str) : item.valueOf k = some u ↔ item = .given k u := by
    cases item with
    | given key value =>
      simp only [Item.valueOf,Item.given.injEq]
      split_ifs with same
      · simp [same]
      · simp [same]
    | switch key => simp [Item.valueOf]
  constructor
  · intro found
    obtain ⟨front,item,rear,rfl,shown,_⟩ := List.findSome?_eq_some_iff.mp found
    rw [← (shows item v).mp shown]
    simp
  · intro listed
    cases found : items.findSome? (Item.valueOf k) with
    | none => exact absurd ((shows _ v).mpr rfl) (by simp [List.findSome?_eq_none_iff.mp found _ listed])
    | some u =>
      obtain ⟨front,item,rear,rfl,shown,_⟩ := List.findSome?_eq_some_iff.mp found
      rw [(shows item u).mp shown] at consistent listed
      rw [consistent k u v (by simp) listed]

variable (R : Rounding)

private theorem launch_congr {a b : List Str} (flags : ∀ k ∈ valuedKeys, flag a k = flag b k)
    (on : ∀ k ∈ switches, has a k = has b k)
    (debug : Str → Str) (readFile : Str → Except Str Str) : launch R debug readFile a = launch R debug readFile b := by
  have options : Options.ofArgs R a = Options.ofArgs R b := by
    simp only [Options.ofArgs]
    rw [flags _ (by simp [valuedKeys]),flags _ (by simp [valuedKeys]),flags _ (by simp [valuedKeys]),
      flags _ (by simp [valuedKeys]),on _ (by simp [switches]),on _ (by simp [switches]),on _ (by simp [switches])]
  rw [launch,launch,on _ (by simp [switches]),on _ (by simp [switches]),flags _ (by simp [valuedKeys]),options]

/-- What is said of the malformed lines of a rule file, each with its number. -/
def complaintsOf (debug : Str → Str) (path : Str) (ls : List Str) : List Str :=
  ls.zipIdx.flatMap (fun entry => (parseRules R entry.1).2.map (fun e =>
    "vitals: rule file ".toList ++ (path ++ (": ".toList ++ (ParseError.mk (entry.2+1) entry.1 e.reason).display debug))))

private theorem parsed_by_line (text : Str) (debug : Str → Str) (path : Str) :
    (parseRules R text).1 = (lines text).flatMap (fun line => (parseRules R line).1) ∧
    (parseRules R text).2.map (fun e => "vitals: rule file ".toList ++ (path ++ (": ".toList ++ e.display debug))) =
      complaintsOf R debug path (lines text) := by
  rw [RuleFile.parseRules_lines]
  refine ⟨?_,?_⟩
  · exact List.flatMap_congr (fun line member => by rw [RuleFileLines.parseRules_line R (newline_not_mem member)])
  · rw [List.map_flatMap,complaintsOf]
    apply List.flatMap_congr
    intro entry member
    rw [RuleFileLines.parseRules_line R (newline_not_mem (List.fst_mem_of_mem_zipIdx member))]
    simp [RuleFile.errorOf]

/-- Options may come in any order, each says what it says wherever it stands, and a key that lost
its value at the end says nothing. A rule file starts the program with the rules of its lines in
order unless some line is malformed and none is a rule; every malformed line is reported with
its own number. -/
theorem launch_exact {items : List Item} (proper : ∀ item ∈ items, item.Proper) {lone : Option Str}
    (bare : ∀ key ∈ lone, key ∈ valuedKeys) (debug : Str → Str) (readFile : Str → Except Str Str) :
    (∀ k ∈ valuedKeys, flag (words items ++ lone.toList) k = items.findSome? (Item.valueOf k)) ∧
    (∀ k ∈ switches, has (words items ++ lone.toList) k = items.contains (.switch k)) ∧
    (Consistent items → ∀ items', items.Perm items' →
      launch R debug readFile (words items' ++ lone.toList) = launch R debug readFile (words items ++ lone.toList)) ∧
    (.switch "--help".toList ∉ items → .switch "-h".toList ∉ items → ∀ path text ls,
      items.findSome? (Item.valueOf "--rules".toList) = some path → readFile path = .ok text → lines text = ls →
      let rules := ls.flatMap (fun line => (parseRules R line).1)
      let said := complaintsOf R debug path ls
      (said ≠ [] ∧ rules = [] → launch R debug readFile (words items ++ lone.toList) =
        .refused (said ++ ["vitals: no usable rules; exiting".toList])) ∧
      (said = [] ∨ rules ≠ [] → launch R debug readFile (words items ++ lone.toList) =
        .started (.ofArgs R (words items ++ lone.toList)) rules (said ++
          ["vitals: loaded ".toList ++ (renderNat rules.length ++ (" alert rule(s) from ".toList ++ path))]))) := by
  have flags := fun k valued => flag_words (k := k) proper bare valued
  have on := fun k switch => has_words (k := k) proper bare switch
  refine ⟨flags,on,?_,?_⟩
  · intro consistent items' same
    have proper' : ∀ item ∈ items', item.Proper := fun item member => proper item (same.mem_iff.mpr member)
    have consistent' : Consistent items' := fun key v v' first second =>
      consistent key v v' (same.mem_iff.mpr first) (same.mem_iff.mpr second)
    refine launch_congr R ?_ ?_ debug readFile
    · intro k valued
      rw [flags k valued,flag_words proper' bare valued]
      apply Option.ext
      intro v
      rw [value_iff consistent',value_iff consistent,same.mem_iff]
    · intro k switch
      rw [on k switch,has_words proper' bare switch,Bool.eq_iff_iff,List.contains_iff_mem,List.contains_iff_mem]
      exact same.symm.mem_iff
  · intro help short path text ls given read split
    have rulesFlag := flags "--rules".toList (by simp [valuedKeys])
    have helpOff : has (words items ++ lone.toList) "--help".toList = false := by
      rw [on _ (by simp [switches])]
      simpa using help
    have shortOff : has (words items ++ lone.toList) "-h".toList = false := by
      rw [on _ (by simp [switches])]
      simpa using short
    obtain ⟨rules,said⟩ := parsed_by_line R text debug path
    rw [split] at rules said
    have silent : (parseRules R text).2.isEmpty = (complaintsOf R debug path ls).isEmpty := by
      rw [← said,List.isEmpty_map]
    have whole : launch R debug readFile (words items ++ lone.toList) =
        if !(complaintsOf R debug path ls).isEmpty && (ls.flatMap (fun line => (parseRules R line).1)).isEmpty
        then .refused (complaintsOf R debug path ls ++ ["vitals: no usable rules; exiting".toList])
        else .started (.ofArgs R (words items ++ lone.toList)) (ls.flatMap (fun line => (parseRules R line).1))
          (complaintsOf R debug path ls ++ ["vitals: loaded ".toList ++
            (renderNat (ls.flatMap (fun line => (parseRules R line).1)).length ++ (" alert rule(s) from ".toList ++ path))]) := by
      rw [launch,helpOff,shortOff,rulesFlag,given]
      simp only [Bool.or_self,Bool.false_eq_true,if_false,read,rules,said,silent]
    rw [whole]
    generalize complaintsOf R debug path ls = complaints
    generalize ls.flatMap (fun line => (parseRules R line).1) = rs
    refine ⟨?_,?_⟩
    · intro none_
      rw [if_pos (by simpa using none_)]
    · intro some_
      rw [if_neg (by simpa [imp_iff_not_or] using some_)]

/-- A file with both kinds of line ends. -/
theorem launch_exact_mixed : ∃ (o : Options) (err : List Str), launch .exact id
    (fun _ => .ok "alert hot system cpu > 80 for 5s\r\nalert hot\n".toList)
    (["--json","--rules","file","--top"].map String.toList) =
      .started o [⟨"hot".toList,.system,.cpuPct,.gt,.fin 80,5*10^9,.fin 80,false,false⟩] err := by
  let items : List Item := [.switch "--json".toList,.given "--rules".toList "file".toList]
  let ls : List Str := ["alert hot system cpu > 80 for 5s".toList,"alert hot".toList]
  have proper : ∀ item ∈ items, item.Proper := by
    have known : "--json".toList ∈ switches := by decide +kernel
    have valued : "--rules".toList ∈ valuedKeys ∧ "file".toList ∉ valuedKeys ∧ "file".toList ∉ switches := by
      decide +kernel
    exact List.forall_mem_cons.mpr ⟨known,List.forall_mem_singleton.mpr valued⟩
  have bare : ∀ key ∈ some "--top".toList, key ∈ valuedKeys := by
    rintro key ⟨⟩
    simp [valuedKeys]
  have split : lines "alert hot system cpu > 80 for 5s\r\nalert hot\n".toList = ls := by decide +kernel
  have first : (parseRules .exact "alert hot system cpu > 80 for 5s".toList).1 =
      [⟨"hot".toList,.system,.cpuPct,.gt,.fin 80,5*10^9,.fin 80,false,false⟩] := by decide +kernel
  have second : (parseRules .exact "alert hot".toList).1 = [] := by decide +kernel
  have rules : ls.flatMap (fun line => (parseRules .exact line).1) =
      [⟨"hot".toList,.system,.cpuPct,.gt,.fin 80,5*10^9,.fin 80,false,false⟩] := by
    simp only [ls,List.flatMap_cons,List.flatMap_nil,first,second,List.append_nil]
  obtain ⟨_,_,_,admitted⟩ := launch_exact .exact proper bare id
    (fun _ => .ok "alert hot system cpu > 80 for 5s\r\nalert hot\n".toList)
  have some_ : ls.flatMap (fun line => (parseRules .exact line).1) ≠ [] := by
    rw [rules]
    exact List.cons_ne_nil _ _
  have starts := (admitted (by decide) (by decide) "file".toList _ ls (by decide) rfl split).2 (.inr some_)
  exact ⟨_,_,by rw [← rules]; exact starts⟩

end Vitals.CommandLine
