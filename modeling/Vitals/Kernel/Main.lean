import Vitals.Kernel.SamplerThread
import Vitals.Kernel.Render
import Vitals.Kernel.Screen

/-! The program: `main` of `bin/vitals.rs`. It reads its arguments, starts the sampler and then
looks at what the sampler shares once in every round of its loop. The main thread and the sampler
interleave freely, as in `SamplerThread`. -/
namespace Vitals.Kernel
open Text Decimal Library

/-- The argument behind the first occurrence of a key. -/
def flag (a : List Str) (k : Str) : Option Str := (a.findIdx? (· = k)).bind (fun i => a[i+1]?)

def has (a : List Str) (k : Str) : Bool := a.any (· = k)

structure Options where
  interval : Nat
  top : Nat
  root : Str
  json : Bool
  once : Bool
  runFor : Option Nat
  sockets : Bool

/-- The collector that the sampler is given. -/
def Options.collector (o : Options) : Collector := {root := [o.root],withSockets := o.sockets}

/-- How the program begins: the usage text, an exit with what was said on stderr, or a start. -/
inductive Launch where
  | usage
  | refused (err : List Str)
  | started (o : Options) (rules : List Rule) (err : List Str)

/-- `debug` is the quoting of `{:?}`. -/
def ParseError.display (debug : Str → Str) (e : ParseError) : Str :=
  "line ".toList ++ (renderNat e.lineNo ++ (": ".toList ++ (e.reason ++ (" (in: ".toList ++ (debug e.line ++ [')'])))))

section
variable (R : Rounding)

def Options.ofArgs (a : List Str) : Options where
  interval := ((flag a "--interval".toList).bind (parseDuration R)).getD (10^9)
  top := (((flag a "--top".toList).bind parseU64).map UInt64.toNat).getD 15
  root := (flag a "--proc-root".toList).getD "/proc".toList
  json := has a "--json".toList
  once := has a "--once".toList
  runFor := (flag a "--duration".toList).bind (parseDuration R)
  sockets := has a "--sockets".toList

/-- `readFile` is the reading of a text file, with the text of its error. -/
def launch (debug : Str → Str) (readFile : Str → Except Str Str) (a : List Str) : Launch :=
  if has a "--help".toList || has a "-h".toList then .usage
  else match flag a "--rules".toList with
    | none => .started (.ofArgs R a) [] []
    | some path => match readFile path with
      | .error e => .refused ["vitals: cannot read ".toList ++ (path ++ (": ".toList ++ e))]
      | .ok text =>
        let parsed := parseRules R text
        let said := parsed.2.map (fun e =>
          "vitals: rule file ".toList ++ (path ++ (": ".toList ++ e.display debug)))
        if !parsed.2.isEmpty && parsed.1.isEmpty then .refused (said ++ ["vitals: no usable rules; exiting".toList])
        else .started (.ofArgs R a) parsed.1 (said ++
          ["vitals: loaded ".toList ++ (renderNat parsed.1.length ++ (" alert rule(s) from ".toList ++ path))])

end

/-- Where the main thread stands; `settling` is the wait before the first round. -/
inductive MainPc where
  | spawned
  | settling (wake : Nat)
  | top
  | inside
  | looked
  | decide
  | asleep (wake : Nat)
  | stopping
  | joining
  | done

/-- `start` is the instant the rounds began; `out` and `err` are all that was written. -/
structure Program where
  world : World Unit
  pc : MainPc
  start : Nat
  out : Str
  err : List Str

/-- A step of the shared world, the beginning of a round at an instant, or a step of the main
thread that nobody else can notice. -/
inductive MainAction where
  | world (a : Action Unit)
  | round (instant : Nat)
  | own

/-- Duration::from_millis(120). -/
def margin : Nat := 120000000

section
variable (R : Rounding) (P : Fixed3) (sys : SysConst) (display : IoError → Str) (o : Options)

/-- What one look writes to stdout, `none` where the rendering would panic. -/
def frame (seen : Shared) : Option Str :=
  match seen.latest with
  | none => some []
  | some snap =>
    if o.json then some (renderJson R P snap seen o.top ++ ['\n'])
    else (renderText R snap seen o.top o.once).map (fun text =>
      if o.once then text else "\x1b[H\x1b[J".toList ++ text)

def complaints (seen : Shared) : List Str :=
  (seen.lastError.map (fun e => "vitals: sample error: ".toList ++ e)).toList ++
    if seen.latest.isNone then ["vitals: waiting for first sample...".toList] else []

/-- The loop ends after one round, or where the time given is over. -/
def enough (elapsed : Nat) : Bool := o.once || o.runFor.any (fun d => d ≤ elapsed)

inductive MainStep : Program → MainAction → Program → Prop
  | settle (p) (at_ : p.pc = .spawned) :
      MainStep p .own {p with pc := .settling (p.world.now+(o.interval+margin))}
  | begin (p) (wake) (at_ : p.pc = .settling wake) (slept : wake ≤ p.world.now) :
      MainStep p (.round p.world.now) {p with pc := .top, start := p.world.now}
  | enter (p) (w) (at_ : p.pc = .top) (step : OtherStep p.world (.access (.enter ())) w) :
      MainStep p (.world (.access (.enter ()))) {p with pc := .inside, world := w}
  | look (p) (seen) (w) (text) (at_ : p.pc = .inside) (step : OtherStep p.world (.access (.read () seen)) w)
      (shown : frame R P o seen = some text) :
      MainStep p (.world (.access (.read () seen)))
        {p with pc := .looked, world := w, out := p.out ++ text, err := p.err ++ complaints seen}
  | leave (p) (w) (at_ : p.pc = .looked) (step : OtherStep p.world (.access (.leave ())) w) :
      MainStep p (.world (.access (.leave ()))) {p with pc := .decide, world := w}
  | break_ (p) (at_ : p.pc = .decide) (ended : enough o (p.world.now-p.start) = true) :
      MainStep p .own {p with pc := .stopping}
  | sleep (p) (at_ : p.pc = .decide) (more : enough o (p.world.now-p.start) = false) :
      MainStep p .own {p with pc := .asleep (p.world.now+o.interval)}
  | wake (p) (wake) (at_ : p.pc = .asleep wake) (slept : wake ≤ p.world.now) :
      MainStep p (.round p.world.now) {p with pc := .top}
  | request (p) (w) (at_ : p.pc = .stopping) (step : OtherStep p.world .request w) :
      MainStep p (.world .request) {p with pc := .joining, world := w}
  | join (p) (w) (at_ : p.pc = .joining) (step : OtherStep p.world .join w) :
      MainStep p (.world .join) {p with pc := .done, world := w}

/-- The main thread, the sampler thread, the clock and the store of the stop flag take turns in
any order. -/
inductive ProgramStep (p : Program) (a : MainAction) (p' : Program) : Prop
  | main (step : MainStep R P o p a p')
  | thread (b : Action Unit) (w : World Unit) (label : a = .world b)
      (step : OwnStep R sys display o.interval p.world b w) (same : p' = {p with world := w})
  | time (passed : Nat) (label : a = .world (.time passed))
      (same : p' = {p with world := {p.world with now := p.world.now+passed}})
  | arrive (stored : p.world.requested = true) (label : a = .world .arrive)
      (same : p' = {p with world := {p.world with arrived := true}})

end

/-- The program as the sampler has been spawned. -/
def begun (rules : List Rule) (now : Nat) : Program := ⟨spawn rules 300 200 now,.spawned,0,[],[]⟩

end Vitals.Kernel
