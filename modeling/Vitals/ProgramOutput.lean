import Vitals.Semantics.Rounds
import Vitals.ReaderAlerts
import Vitals.JsonOutput

/-! What the program writes, in whatever order its threads take their steps. -/
namespace Vitals.ProgramOutput
open Kernel Library Semantics ThreadPublication Text Json

section
variable {R : Rounding} {P : Fixed3} {sys : SysConst} {display : IoError → Str} {o : Options} {rules : List Rule}
variable {began : Nat} {actions : List MainAction} {p p' : Program} {a : MainAction}

private theorem worldActions_snoc (actions : List MainAction) (a : MainAction) :
    worldActions (actions ++ [a]) = worldActions actions ++ (MainAction.onWorld a).toList :=
  filterMap_snoc MainAction.onWorld actions a

/-- What happens to the shared world is a run of its own. -/
theorem world_run (run : Run (ProgramStep R P sys display o) (begun rules began) actions p) :
    Run (Step R sys display o.interval) (spawn rules 300 200 began) (worldActions actions) p.world := by
  refine run.project Program.world MainAction.onWorld ?_
  intro m a u step
  cases step with
  | main step =>
    cases step with
    | settle | begin | break_ | sleep | wake => rfl
    | enter w at_ step | look seen w text at_ step shown | leave w at_ step | request w at_ step | join w at_ step =>
      exact .other step
  | thread b w label step same =>
    subst label same
    exact .own step
  | time passed label same =>
    subst label same
    exact .other (.time m.world passed)
  | arrive stored label same =>
    subst label same
    exact .other (.arrive m.world stored)

/-- The texts so far with the turns each of them shows, none of them more than are handed over. -/
def Kept (R : Rounding) (P : Fixed3) (sys : SysConst) (display : IoError → Str) (o : Options) (rules : List Rule)
    (actions : List MainAction) (p : Program) : Prop :=
  ∃ views, Renders R P sys display o rules views p ∧ views.length = looks actions ∧
    ∀ turns ∈ views, turns <+: handed (worldActions actions)

private theorem handed_snoc (actions : List MainAction) (a : MainAction) :
    handed (worldActions actions) <+: handed (worldActions (actions ++ [a])) :=
  handed_mono (worldActions_snoc actions a)

def isLook : MainAction → Bool
  | .world (.access (.read _ _)) => true
  | _ => false

theorem looks_snoc (actions : List MainAction) (a : MainAction) :
    looks (actions ++ [a]) = looks actions + if isLook a then 1 else 0 := by
  rw [looks,worldActions_snoc,List.countP_append]
  cases a with
  | world b =>
    cases b with
    | access x => cases x <;> rfl
    | time | proceed | begin | scan | finish | sleep | exit | request | arrive | join => rfl
  | round | own => rfl

private theorem kept_quiet (kept : Kept R P sys display o rules actions p) (out : p'.out = p.out)
    (err : p'.err = p.err) (quiet : isLook a = false) : Kept R P sys display o rules (actions ++ [a]) p' := by
  obtain ⟨views,⟨grows,⟨texts,shown,written⟩,said⟩,counted,within⟩ := kept
  refine ⟨views,⟨grows,⟨texts,shown,out.trans written⟩,err.trans said⟩,?_,?_⟩
  · rw [looks_snoc,quiet]
    exact counted
  · exact fun turns member => (within turns member).trans (handed_snoc actions a)

/-- A look shows the turns handed over by then, which are no fewer than any look before saw. -/
theorem kept_look {seen : Shared} {text : Str} {w : World Unit}
    (run : Run (ProgramStep R P sys display o) (begun rules began) actions p)
    (kept : Kept R P sys display o rules actions p)
    (step : OtherStep p.world (.access (.read () seen)) w) (shown : frame R P o seen = some text) :
    Kept R P sys display o rules (actions ++ [.world (.access (.read () seen))])
      {p with pc := .looked, world := w, out := p.out ++ text, err := p.err ++ complaints seen} := by
  have whole := (world_run run).next (.other step)
  have value : seen = sharedAfter R sys display rules (handed (worldActions actions)) := read_handed whole rfl
  obtain ⟨views,⟨grows,⟨texts,before,written⟩,said⟩,counted,within⟩ := kept
  refine ⟨views ++ [handed (worldActions actions)],⟨?_,⟨texts ++ [text],?_,?_⟩,?_⟩,?_,?_⟩
  · refine List.pairwise_append.mpr ⟨grows,List.pairwise_singleton _ _,?_⟩
    intro turns member latest last
    rw [List.mem_singleton.mp last]
    exact within turns member
  · rw [value] at shown
    exact List.rel_append before (.cons shown .nil)
  · rw [List.flatten_append,← written]
    simp
  · rw [List.flatMap_append,← said,value]
    simp
  · rw [List.length_append,looks_snoc,counted]
    rfl
  · intro turns member
    refine (?_ : turns <+: handed (worldActions actions)).trans (handed_snoc actions _)
    rcases List.mem_append.mp member with old | new
    · exact within turns old
    · rw [List.mem_singleton.mp new]

theorem kept_run (run : Run (ProgramStep R P sys display o) (begun rules began) actions p) :
    Kept R P sys display o rules actions p := by
  induction run with
  | refl => exact ⟨[],⟨.nil,⟨[],.nil,rfl⟩,rfl⟩,rfl,nofun⟩
  | snoc actions middle a last before taken ih =>
    cases taken with
    | main step =>
      cases step with
      | settle | begin | break_ | sleep | wake => exact kept_quiet ih rfl rfl rfl
      | enter | leave | request | join => exact kept_quiet ih rfl rfl rfl
      | look seen w text at_ step shown => exact kept_look before ih step shown
    | thread b w label step same =>
      subst label same
      refine kept_quiet ih rfl rfl ?_
      cases step <;> rfl
    | time passed label same | arrive stored label same =>
      subst label same
      exact kept_quiet ih rfl rfl rfl

private theorem latest_after (R : Rounding) (sys : SysConst) (display : IoError → Str) (rules : List Rule)
    (turns : List Cycle) : (sharedAfter R sys display rules turns).latest = (snapshots R sys turns).getLast? :=
  (SamplerRun.law_run R sys display rules 300 200 turns).latest

/-- Everything the program has written by any moment is, look by look, the rendering of what a
whole number of turns had left: the snapshot of the last successful comparison with the alerts
and the error of that very turn. No look shows fewer turns than the one before it, and none a
turn that is still under way. -/
theorem output_rendered (run : Run (ProgramStep R P sys display o) (begun rules began) actions p) :
    ∃ views : List (List Cycle), views.length = looks actions ∧ views.Pairwise (· <+: ·) ∧
      (∀ turns ∈ views, turns <+: scans (worldActions actions) ∧
        (sharedAfter R sys display rules turns).latest = (snapshots R sys turns).getLast?) ∧
      (∃ texts, List.Forall₂ (fun turns text => frame R P o (sharedAfter R sys display rules turns) = some text)
        views texts ∧ p.out = texts.flatten) ∧
      p.err = views.flatMap (fun turns => complaints (sharedAfter R sys display rules turns)) := by
  obtain ⟨views,⟨grows,frames,said⟩,counted,within⟩ := kept_run run
  have known := (published_handed (world_run run)).2.1
  exact ⟨views,counted,grows,fun turns member => ⟨(within turns member).trans known,latest_after R sys display rules turns⟩,
    frames,said⟩

/-- A line that decodes to the system, the processes and the alerts of the state some turns have
left. -/
structure Tells (R : Rounding) (P : Fixed3) (sys : SysConst) (display : IoError → Str) (rules : List Rule) (top : Nat)
    (turns : List Cycle) (line : Str) : Prop where
  object : ∃ snap members system procs alerts, (snapshots R sys turns).getLast? = some snap ∧
    decode line = some (.object members) ∧ (∀ v, Document line v → v = .object members) ∧
    (Json.object members).get "system" = some system ∧ JsonOutput.ShowsSystem R P snap.system system ∧
    (Json.object members).get "procs" = some (.array procs) ∧
    List.Forall₂ (JsonOutput.ShowsProc P) (snap.procs.take top) procs ∧
    (Json.object members).get "alerts" = some (.array alerts) ∧
    List.Forall₂ (JsonOutput.ShowsAlert R P) (sharedAfter R sys display rules turns).activeAlerts alerts

private theorem tells_line {turns : List Cycle} {snap : Snapshot}
    (found : (snapshots R sys turns).getLast? = some snap)
    (top : Nat) : Tells R P sys display rules top turns (renderJson R P snap (sharedAfter R sys display rules turns) top) := by
  obtain ⟨members,system,procs,alerts,_,unique,decoded,shows⟩ :=
    JsonOutput.renderJson_decodes R P snap (sharedAfter R sys display rules turns) top
  exact ⟨snap,members,system,procs,alerts,found,decoded,unique,shows⟩

/-- The line that shows what some turns have left. -/
def Wrote (R : Rounding) (P : Fixed3) (sys : SysConst) (display : IoError → Str) (rules : List Rule) (top : Nat)
    (turns : List Cycle) (line : Str) : Prop :=
  ∃ snap, (snapshots R sys turns).getLast? = some snap ∧
    line = renderJson R P snap (sharedAfter R sys display rules turns) top

private theorem json_lines (json : o.json = true) {views : List (List Cycle)} {texts : List Str}
    (frames : List.Forall₂ (fun turns text => frame R P o (sharedAfter R sys display rules turns) = some text) views texts) :
    ∃ lines, texts.flatten = unlines lines ∧ (∀ line ∈ lines, Printable line) ∧
      List.Forall₂ (Wrote R P sys display rules o.top) (views.filter (fun turns => !(snapshots R sys turns).isEmpty))
        lines := by
  induction frames with
  | nil => exact ⟨[],rfl,nofun,.nil⟩
  | @cons turns text views texts first rest ih =>
    obtain ⟨lines,joined,printable,wrote⟩ := ih
    rw [frame,latest_after] at first
    cases found : (snapshots R sys turns).getLast? with
    | none =>
      rw [found] at first
      obtain rfl := Option.some.inj first
      have empty : (snapshots R sys turns).isEmpty = true := by simpa using found
      refine ⟨lines,joined,printable,?_⟩
      rw [List.filter_cons_of_neg (by simp [empty])]
      exact wrote
    | some snap =>
      rw [found] at first
      simp only [json,if_true] at first
      obtain rfl := Option.some.inj first
      have some_ : (snapshots R sys turns).isEmpty = false := by
        cases snaps : snapshots R sys turns with
        | nil => rw [snaps] at found; cases found
        | cons => rfl
      refine ⟨renderJson R P snap (sharedAfter R sys display rules turns) o.top :: lines,?_,?_,?_⟩
      · rw [List.flatten_cons,joined]
        rfl
      · refine List.forall_mem_cons.mpr ⟨?_,printable⟩
        rw [JsonOutput.renderJson_eq]
        exact Written.printable _
      · rw [List.filter_cons_of_pos (by simp [some_])]
        exact .cons ⟨snap,found,rfl⟩ wrote

theorem json_written (run : Run (ProgramStep R P sys display o) (begun rules began) actions p) (json : o.json = true) :
    ∃ views : List (List Cycle), views.Pairwise (· <+: ·) ∧ views.length ≤ looks actions ∧
      (∀ turns ∈ views, turns <+: scans (worldActions actions)) ∧
      List.Forall₂ (Wrote R P sys display rules o.top) views (lines p.out) := by
  obtain ⟨views,⟨grows,⟨texts,frames,written⟩,_⟩,counted,within⟩ := kept_run run
  obtain ⟨ls,joined,printable,wrote⟩ := json_lines json frames
  have known := (published_handed (world_run run)).2.1
  refine ⟨views.filter (fun turns => !(snapshots R sys turns).isEmpty),grows.filter _,?_,?_,?_⟩
  · rw [← counted]
    exact List.length_filter_le _ _
  · intro turns member
    exact (within turns (List.mem_of_mem_filter member)).trans known
  · rw [written,joined,lines_unlines]
    · exact wrote
    · intro line member
      refine plain_of_unbroken (fun c inside => ?_)
      have visible := printable line member c inside
      constructor
      · rintro rfl
        exact absurd visible (by decide)
      · rintro rfl
        exact absurd visible (by decide)

/-- What a program reading the output line by line gets: one document a line, each telling of
the state that a whole number of turns had left, later lines of later states. -/
theorem json_stream (run : Run (ProgramStep R P sys display o) (begun rules began) actions p) (json : o.json = true) :
    ∃ views : List (List Cycle), views.Pairwise (· <+: ·) ∧ views.length ≤ looks actions ∧
      (∀ turns ∈ views, turns <+: scans (worldActions actions)) ∧
      List.Forall₂ (Tells R P sys display rules o.top) views (lines p.out) := by
  obtain ⟨views,grows,counted,within,wrote⟩ := json_written run json
  refine ⟨views,grows,counted,within,wrote.imp ?_⟩
  intro turns line wrote
  obtain ⟨snap,found,rfl⟩ := wrote
  exact tells_line found o.top

theorem thread_run {more : List (Action Unit)} {w w' : World Unit} (start : Program) (here : start.world = w)
    (run : Run (OwnStep R sys display o.interval) w more w') :
    Run (ProgramStep R P sys display o) start (more.map .world) {start with world := w'} := by
  induction run with
  | refl =>
    subst here
    exact .refl
  | snoc more middle a w' _ step ih =>
    rw [List.map_append]
    exact ih.next (.thread a w' rfl step rfl)

end

def onceJson : Options := ⟨0,15,"/proc".toList,true,true,none,true⟩

/-- One document, written after two turns of the sampler that saw the same. -/
theorem document_written {c : Cycle} {sample : Sample} (timed : Timed 0 0 c) (ok : c.result = .ok sample) :
    ∃ (actions : List MainAction) (p : Program),
      Run (ProgramStep .exact .halfEven (sysConst none none) (fun _ => []) onceJson) (begun [] 0) actions p ∧
        p.pc = .done ∧ p.out ≠ [] ∧ scans (worldActions actions) = [c,c] := by
  obtain ⟨more,w,run,scanned,last,_,open_,_⟩ := ThreadPublication.turns_twice timed [] 300 200
  have held : w.handle = .held := own_handle run
  have turns : Run (ProgramStep .exact .halfEven (sysConst none none) (fun _ => []) onceJson) (begun [] 0)
      _ {begun [] 0 with world := w} := thread_run (begun [] 0) rfl run
  have settled := turns.next (.main (.settle _ rfl))
  have waited := settled.next (.time margin rfl rfl)
  have begins := waited.next (.main (.begin _ _ rfl (by simp [onceJson])))
  have entered := begins.next (.main (.enter _ _ rfl (.enter _ () _ (Guarded.enter_possible open_ ()))))
  have value : w.shared.value = sharedAfter .exact (sysConst none none) (fun _ => []) [] [c,c] := by
    have free : w.shared.hold ≠ .writer := by
      rw [open_]
      exact nofun
    rw [value_handed (own_run run) free,handed_all (own_run run) last,scanned]
    rfl
  have some_ : w.shared.value.latest.isSome = true := by
    rw [value,latest_after]
    simp [snapshots,consecutive,successes,Semantics.scanned,ok]
  obtain ⟨snap,found⟩ := Option.isSome_iff_exists.mp some_
  have shown : frame .exact .halfEven onceJson w.shared.value =
      some (renderJson .exact .halfEven snap w.shared.value 15 ++ ['\n']) := by
    rw [frame,found]
    rfl
  have looked := entered.next (.main (.look _ _ _ _ rfl (.read _ () _ _ (.read _ [()] () (by simp))) shown))
  have left := looked.next (.main (.leave _ _ rfl (.leave _ () _ (.leave _ [] [] ()))))
  have over_ := left.next (.main (.break_ _ rfl rfl))
  have asked := over_.next (.main (.request _ _ rfl (.request _ held)))
  have arrived := asked.next (.arrive rfl rfl rfl)
  have out := arrived.next (.thread .exit _ rfl (.exit _ last rfl) rfl)
  have joined := out.next (.main (.join _ _ rfl (.join _ rfl rfl)))
  have own : worldActions (more.map MainAction.world) = more := by
    simp [worldActions,List.filterMap_map,Function.comp_def,MainAction.onWorld]
  refine ⟨_,_,joined,rfl,by simp [begun],?_⟩
  simp only [worldActions_snoc,own,MainAction.onWorld,Option.toList_some,Option.toList_none,List.append_nil,scans_snoc,
    Action.scanned,scanned]

theorem deserted_document : ∃ (actions : List MainAction) (p : Program),
    Run (ProgramStep .exact .halfEven (sysConst none none) (fun _ => []) onceJson) (begun [] 0) actions p ∧
      p.pc = .done ∧ p.out ≠ [] := by
  obtain ⟨actions,p,run,ended,some_,_⟩ := document_written ThreadPublication.deserted_timed rfl
  exact ⟨actions,p,run,ended,some_⟩

theorem output_rendered_document : ∃ p : Program, p.out ≠ [] ∧ ∃ (views : List (List Cycle)) (texts : List Str),
    List.Forall₂ (fun turns text => frame .exact .halfEven onceJson
      (sharedAfter .exact (sysConst none none) (fun _ => []) [] turns) = some text) views texts ∧
    p.out = texts.flatten := by
  obtain ⟨actions,p,run,_,some_⟩ := deserted_document
  obtain ⟨views,_,_,_,⟨texts,frames,written⟩,_⟩ := output_rendered run
  exact ⟨p,some_,views,texts,frames,written⟩

theorem json_stream_document : ∃ p : Program, p.out ≠ [] ∧ ∃ views : List (List Cycle),
    List.Forall₂ (Tells .exact .halfEven (sysConst none none) (fun _ => []) [] 15) views (lines p.out) := by
  obtain ⟨actions,p,run,_,some_⟩ := deserted_document
  obtain ⟨views,_,_,_,told⟩ := json_stream run rfl
  exact ⟨p,some_,views,told⟩

end Vitals.ProgramOutput
