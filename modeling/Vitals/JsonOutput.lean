import Vitals.Kernel.Render
import Vitals.Library.JsonWrite

/-! The machine-readable output is one JSON object on one line, and decoding it gives back
the processes and the alerts. The output is put together a second time from texts that carry
their values, and the two agree character by character. -/
namespace Vitals.JsonOutput
open Kernel Text Decimal Json

/-- The escape of a control character, two of its four digits zero. -/
theorem hex_control {n : Nat} (control : n < 0x20) : Hex4 ((Nat.toDigits 16 n).leftpad 4 '0') n := by
  have digit : ∀ k < 16, hexDigit (Nat.digitChar k) = some k := by decide
  have shape : ∀ n < 0x20, (Nat.toDigits 16 n).leftpad 4 '0' =
      ['0','0',Nat.digitChar (n/16),Nat.digitChar (n%16)] := by decide
  have text := Hex4.digits (digit 0 (by omega)) (digit 0 (by omega)) (digit (n/16) (by omega)) (digit (n%16) (by omega))
  have value : ((0*16+0)*16+n/16)*16+n%16 = n := by omega
  rw [shape n control]
  rwa [value] at text

private theorem charText_jchar (c : Char) : CharText (jchar c) c := by
  unfold jchar
  split_ifs with quote backslash newline carriage tab control
  · subst quote
    exact .short (by decide)
  · subst backslash
    exact .short (by decide)
  · subst newline
    exact .short (by decide)
  · subst carriage
    exact .short (by decide)
  · subst tab
    exact .short (by decide)
  · have text := CharText.unicode (hex_control control) (by simp [isHigh]; omega) (by simp [isLow]; omega)
    rwa [Char.ofNat_toNat] at text
  · exact .plain (by omega) quote backslash

private theorem printable_jchar (c : Char) : Printable (jchar c) := by
  unfold jchar
  split_ifs with quote backslash newline carriage tab control
  · exact printable_of_all (by decide +kernel)
  · exact printable_of_all (by decide +kernel)
  · exact printable_of_all (by decide +kernel)
  · exact printable_of_all (by decide +kernel)
  · exact printable_of_all (by decide +kernel)
  · have hex : ∀ n < 0x20, ((Nat.toDigits 16 n).leftpad 4 '0').all (fun c => 0x20 ≤ c.toNat) = true := by decide
    exact printable_append (printable_of_all (by decide +kernel)) (printable_of_all (hex _ control))
  · exact printable_cons (by omega) printable_nil

private theorem stringText_jstr (s : Str) : StringText (jstr s) s := by
  have text := StringText.quoted (s.map (fun c => (jchar c,c))) (by
    intro part member
    obtain ⟨c,_,rfl⟩ := List.mem_map.mp member
    exact charText_jchar c)
  rw [List.flatMap_map,List.map_map] at text
  simpa [jstr,Function.comp_def] using text

private theorem printable_jstr (s : Str) : Printable (jstr s) := by
  apply printable_between (by decide) (by decide)
  intro d member
  obtain ⟨c,_,inside⟩ := List.mem_flatMap.mp member
  exact printable_jchar c d inside

/-- The loops that push a comma before every element but the first join with commas. -/
theorem pushAll_eq (texts : List Str) : pushAll texts = [','].intercalate texts := by
  have later (i : Nat) (rest : List Str) : (rest.zipIdx (i+1)).flatMap (fun entry =>
      (if 0 < entry.2 then [','] else []) ++ entry.1) = rest.flatMap (fun text => ',' :: text) := by
    induction rest generalizing i with
    | nil => rfl
    | cons text rest ih => simp [List.zipIdx_cons,ih]
  have joined (first : Str) (rest : List Str) : [','].intercalate (first :: rest) =
      first ++ rest.flatMap (fun text => ',' :: text) := by
    induction rest generalizing first with
    | nil => simp
    | cons next rest ih => rw [List.intercalate_cons_of_ne_nil (by simp),ih]; simp
  cases texts with
  | nil => rfl
  | cons first rest =>
    rw [joined,pushAll,List.zipIdx_cons,List.flatMap_cons,later]
    rfl

section
variable (R : Rounding) (P : Fixed3)

private theorem numberText_fixed (q : ℚ) : ∃ v, NumberText (P.text q) v := by
  obtain ⟨sign,whole,decimals,signed,three,digits,text⟩ := P.shape q
  have point : FracText ('.' :: decimals) decimals := .point ⟨by intro none; simp [none] at three,digits⟩
  rw [text]
  rcases signed with rfl | rfl
  · exact ⟨_,by simpa using NumberText.positive (isInt_renderNat whole) point .none⟩
  · exact ⟨_,by simpa using NumberText.negative (isInt_renderNat whole) point .none⟩

private theorem printable_fixed (q : ℚ) : Printable (P.text q) := by
  obtain ⟨sign,whole,decimals,signed,_,digits,text⟩ := P.shape q
  have unsigned : Printable (renderNat whole ++ '.' :: decimals) :=
    printable_append (printable_nat whole) (printable_cons (by decide) (printable_digits digits))
  rw [text]
  rcases signed with rfl | rfl
  · exact unsigned
  · exact printable_cons (by decide) unsigned

def string (s : Str) : Written := ⟨jstr s,.string s,.string (stringText_jstr s),printable_jstr s⟩

def fixed (q : ℚ) : Written where
  text := P.text q
  value := .number ((numberValue (P.text q)).getD 0)
  valid := by
    obtain ⟨v,text⟩ := numberText_fixed P q
    rw [numberText_value text]
    exact .number text
  printable := printable_fixed P q

def num : F64 → Written
  | .fin q => fixed P q
  | _ => .null

def optional (x : Option F64) : Written := (x.map (num P)).getD .null

def procFields (p : ProcRate) : List Field :=
  [.mk "pid" (.int p.pid.toInt),.mk "ppid" (.int p.ppid.toInt),.mk "comm" (string p.comm),.mk "cpu_pct" (num P p.cpuPct),
   .mk "rss" (.nat p.rssBytes.toNat),.mk "threads" (.int p.threads.toInt),.mk "read_bps" (optional P p.readBps),
   .mk "write_bps" (optional P p.writeBps)]

def systemFields (sys : SystemRate) : List Field :=
  [.mk "cpu_pct" (num P sys.cpuPct),.mk "mem_pct" (num P (sys.mem.usedPct R)),.mk "mem_used" (.nat sys.mem.used.toNat),
   .mk "mem_total" (.nat sys.mem.total.toNat),.mk "net_rx_bps" (num P sys.netRxBps),.mk "net_tx_bps" (num P sys.netTxBps),
   .mk "proc_count" (.nat sys.procCount),.mk "vanished" (.nat sys.vanished.toNat),
   .mk "scan_micros" (.nat (sys.scanTime / 1000))]

def alertFields (alert : Str × Str × Nat) : List Field :=
  [.mk "rule" (string alert.1),.mk "subject" (string alert.2.1),.mk "firing_secs" (num P (asSecsF64 R alert.2.2))]

def outputFields (snap : Snapshot) (shared : Shared) (top : Nat) : List Field :=
  [.mk "system" (.object (systemFields R P snap.system)),
   .mk "procs" (.array ((snap.procs.take top).map (fun p => .object (procFields P p)))),
   .mk "alerts" (.array (shared.activeAlerts.map (fun alert => .object (alertFields R P alert))))]

private theorem jnum_eq (x : F64) : jnum P x = (num P x).text := by
  cases x <;> rfl

private theorem optional_eq (x : Option F64) : (x.map (jnum P)).getD "null".toList = (optional P x).text := by
  cases x with
  | none => rfl
  | some x => exact jnum_eq P x

private theorem renderProc_eq (p : ProcRate) : renderProc P p = (Written.object (procFields P p)).text := by
  simp only [procFields,Written.object_text,List.map_cons,List.map_nil,List.intercalate_cons_cons,
    List.intercalate_singleton,Field.text,Field.keyText,List.append_assoc,List.cons_append,List.nil_append,
    ← jnum_eq,← optional_eq]
  rfl

private theorem renderSystem_eq (sys : SystemRate) :
    renderSystem R P sys = (Written.object (systemFields R P sys)).text := by
  simp only [systemFields,Written.object_text,List.map_cons,List.map_nil,List.intercalate_cons_cons,
    List.intercalate_singleton,Field.text,Field.keyText,List.append_assoc,List.cons_append,List.nil_append,← jnum_eq]
  rfl

private theorem renderAlert_eq (alert : Str × Str × Nat) :
    renderAlert R P alert = (Written.object (alertFields R P alert)).text := by
  simp only [alertFields,Written.object_text,List.map_cons,List.map_nil,List.intercalate_cons_cons,
    List.intercalate_singleton,Field.text,Field.keyText,List.append_assoc,List.cons_append,List.nil_append,← jnum_eq]
  rfl

private theorem array_text {α : Type} {text : α → Str} {written : α → Written} (same : ∀ a, text a = (written a).text)
    (items : List α) : (Written.array (items.map written)).text = '[' :: (pushAll (items.map text) ++ [']']) := by
  rw [Written.array_text,pushAll_eq,List.map_map]
  simp only [Function.comp_def,← same]

theorem renderJson_eq (snap : Snapshot) (shared : Shared) (top : Nat) :
    renderJson R P snap shared top = (Written.object (outputFields R P snap shared top)).text := by
  rw [Written.object_text]
  simp only [outputFields,List.map_cons,List.map_nil,List.intercalate_cons_cons,List.intercalate_singleton,Field.text,
    Field.keyText,array_text (renderProc_eq P),array_text (renderAlert_eq R P),← renderSystem_eq,List.append_assoc,
    List.cons_append,List.nil_append]
  rfl

end

/-- The number a float is written as, with three decimals, and null for one that is not finite or
not known. -/
structure ShowsFloat (P : Fixed3) (x : Option F64) (v : Json) : Prop where
  number : ∀ q, x = some (.fin q) → ∃ n, NumberText (P.text q) n ∧ v = .number n
  null : v = .null ↔ ∀ q, x ≠ some (.fin q)

/-- What the object of a process tells of it. -/
structure ShowsProc (P : Fixed3) (p : ProcRate) (v : Json) : Prop where
  pid : v.get "pid" = some (.number p.pid.toInt)
  ppid : v.get "ppid" = some (.number p.ppid.toInt)
  comm : v.get "comm" = some (.string p.comm)
  cpuPct : ∃ share, v.get "cpu_pct" = some share ∧ ShowsFloat P p.cpuPct share
  rss : v.get "rss" = some (.number p.rssBytes.toNat)
  threads : v.get "threads" = some (.number p.threads.toInt)
  readBps : ∃ rate, v.get "read_bps" = some rate ∧ ShowsFloat P p.readBps rate
  writeBps : ∃ rate, v.get "write_bps" = some rate ∧ ShowsFloat P p.writeBps rate

/-- What the object of the system tells of it. -/
structure ShowsSystem (R : Rounding) (P : Fixed3) (sys : SystemRate) (v : Json) : Prop where
  cpuPct : ∃ share, v.get "cpu_pct" = some share ∧ ShowsFloat P sys.cpuPct share
  memPct : ∃ share, v.get "mem_pct" = some share ∧ ShowsFloat P (sys.mem.usedPct R) share
  memUsed : v.get "mem_used" = some (.number sys.mem.used.toNat)
  memTotal : v.get "mem_total" = some (.number sys.mem.total.toNat)
  netRxBps : ∃ rate, v.get "net_rx_bps" = some rate ∧ ShowsFloat P sys.netRxBps rate
  netTxBps : ∃ rate, v.get "net_tx_bps" = some rate ∧ ShowsFloat P sys.netTxBps rate
  procCount : v.get "proc_count" = some (.number sys.procCount)
  vanished : v.get "vanished" = some (.number sys.vanished.toNat)
  scanMicros : v.get "scan_micros" = some (.number (sys.scanTime / 1000 : Nat))

structure ShowsAlert (R : Rounding) (P : Fixed3) (alert : Str × Str × Nat) (v : Json) : Prop where
  rule : v.get "rule" = some (.string alert.1)
  subject : v.get "subject" = some (.string alert.2.1)
  firingSecs : ∃ secs, v.get "firing_secs" = some secs ∧ ShowsFloat P (asSecsF64 R alert.2.2) secs

section
variable (R : Rounding) (P : Fixed3)

private theorem showsFixed (q : ℚ) : ShowsFloat P (some (.fin q)) (fixed P q).value := by
  obtain ⟨n,text⟩ := numberText_fixed P q
  have value : (fixed P q).value = .number n := by
    change Json.number ((numberValue (P.text q)).getD 0) = _
    rw [numberText_value text]
    rfl
  refine ⟨?_,?_⟩
  · intro q' same
    cases same
    exact ⟨n,text,value⟩
  · rw [value]
    exact ⟨nofun,fun other => absurd rfl (other q)⟩

private theorem showsNull {x : Option F64} (unknown : ∀ q, x ≠ some (.fin q)) : ShowsFloat P x Written.null.value :=
  ⟨fun q same => absurd same (unknown q),fun _ => unknown,fun _ => rfl⟩

private theorem showsNum (x : F64) : ShowsFloat P x (num P x).value := by
  cases x with
  | fin q => exact showsFixed P q
  | nan | posInf | negInf => exact showsNull P nofun

private theorem showsOptional (x : Option F64) : ShowsFloat P x (optional P x).value := by
  cases x with
  | none => exact showsNull P nofun
  | some x => exact showsNum P x

private theorem showsSystem (sys : SystemRate) : ShowsSystem R P sys (Written.object (systemFields R P sys)).value := by
  have distinct : ((systemFields R P sys).map Field.key).Nodup := by
    change ["cpu_pct","mem_pct","mem_used","mem_total","net_rx_bps","net_tx_bps","proc_count","vanished","scan_micros"].Nodup
    decide
  have field (i : Fin 9) := Written.get_field distinct i
  exact ⟨⟨_,field 0,showsNum P _⟩,⟨_,field 1,showsNum P _⟩,field 2,field 3,⟨_,field 4,showsNum P _⟩,
    ⟨_,field 5,showsNum P _⟩,field 6,field 7,field 8⟩

private theorem showsProc (p : ProcRate) : ShowsProc P p (Written.object (procFields P p)).value := by
  have distinct : ((procFields P p).map Field.key).Nodup := by
    change ["pid","ppid","comm","cpu_pct","rss","threads","read_bps","write_bps"].Nodup
    decide
  have field (i : Fin 8) := Written.get_field distinct i
  exact ⟨field 0,field 1,field 2,⟨_,field 3,showsNum P _⟩,field 4,field 5,⟨_,field 6,showsOptional P _⟩,
    ⟨_,field 7,showsOptional P _⟩⟩

private theorem showsAlert (alert : Str × Str × Nat) :
    ShowsAlert R P alert (Written.object (alertFields R P alert)).value := by
  have distinct : ((alertFields R P alert).map Field.key).Nodup := by
    change ["rule","subject","firing_secs"].Nodup
    decide
  have field (i : Fin 3) := Written.get_field distinct i
  exact ⟨field 0,field 1,⟨_,field 2,showsNum P _⟩⟩

/-- The output is the text of one object and of no other value, and decoding it gives the system,
the processes shown and the active alerts. -/
theorem renderJson_decodes (snap : Snapshot) (shared : Shared) (top : Nat) :
    ∃ members system procs alerts, Value (renderJson R P snap shared top) (.object members) ∧
      (∀ v, Document (renderJson R P snap shared top) v → v = .object members) ∧
      decode (renderJson R P snap shared top) = some (.object members) ∧
      (Json.object members).get "system" = some system ∧ ShowsSystem R P snap.system system ∧
      (Json.object members).get "procs" = some (.array procs) ∧
      List.Forall₂ (ShowsProc P) (snap.procs.take top) procs ∧
      (Json.object members).get "alerts" = some (.array alerts) ∧
      List.Forall₂ (ShowsAlert R P) shared.activeAlerts alerts := by
  have distinct : ((outputFields R P snap shared top).map Field.key).Nodup := by
    change ["system","procs","alerts"].Nodup
    decide
  have field (i : Fin 3) := Written.get_field distinct i
  rw [renderJson_eq]
  have document := (Written.object (outputFields R P snap shared top)).document
  refine ⟨_,_,_,_,Written.valid _,fun v other => document_unique other document,decode_document document,
    field 0,showsSystem R P snap.system,field 1,?_,field 2,?_⟩
  · rw [List.map_map]
    exact List.forall₂_map_right_iff.mpr (List.forall₂_same.mpr (fun p _ => showsProc P p))
  · rw [List.map_map]
    exact List.forall₂_map_right_iff.mpr (List.forall₂_same.mpr (fun alert _ => showsAlert R P alert))

/-- The output is one JSON object on one line, and decoding it gives the system, the processes
shown and the active alerts, in order, with their texts as they were and every number as it is
written. -/
theorem render_json_faithful (snap : Snapshot) (shared : Shared) (top : Nat) :
    let s := renderJson R P snap shared top
    (∀ c ∈ s, 0x20 ≤ c.toNat) ∧
    ∃ members, Value s (.object members) ∧ (∀ v, Document s v → v = .object members) ∧
      decode s = some (.object members) ∧
      (∃ system, (Json.object members).get "system" = some system ∧ ShowsSystem R P snap.system system) ∧
      (∃ procs, (Json.object members).get "procs" = some (.array procs) ∧
        List.Forall₂ (ShowsProc P) (snap.procs.take top) procs) ∧
      ∃ alerts, (Json.object members).get "alerts" = some (.array alerts) ∧
        List.Forall₂ (ShowsAlert R P) shared.activeAlerts alerts := by
  intro s
  obtain ⟨members,system,procs,alerts,text,unique,decoded,one,shown,two,listed,three,told⟩ :=
    renderJson_decodes R P snap shared top
  refine ⟨?_,members,text,unique,decoded,⟨system,one,shown⟩,⟨procs,two,listed⟩,⟨alerts,three,told⟩⟩
  rw [show s = _ from renderJson_eq R P snap shared top]
  exact Written.printable _

end
end Vitals.JsonOutput
