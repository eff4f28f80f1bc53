import Vitals.Kernel.Sampler

/-! The machine-readable output: `render_json` of `bin/vitals.rs`. -/
namespace Vitals.Kernel
open Text Decimal

/-- `{:.3}` of a finite number: at most a sign, the whole part and three decimals. -/
structure Fixed3 where
  text : ℚ → Str
  shape : ∀ q, ∃ (sign : Str) (whole : Nat) (decimals : Str), (sign = [] ∨ sign = ['-']) ∧
    decimals.length = 3 ∧ (∀ c ∈ decimals, c.isDigit = true) ∧
    text q = sign ++ (renderNat whole ++ '.' :: decimals)

namespace Fixed3

/-- The nearest number of thousandths, ties to even. -/
def thousandths (q : ℚ) : Nat :=
  let x := |q| * 1000
  let down := x.floor.toNat
  if x-down < 1/2 ∨ x-down = 1/2 ∧ down % 2 = 0 then down else down+1

def halfEven : Fixed3 where
  text q := (if q < 0 then ['-'] else []) ++
    (renderNat (thousandths q / 1000) ++ '.' :: (renderNat (thousandths q % 1000)).leftpad 3 '0')
  shape := by
    intro q
    have short : (renderNat (thousandths q % 1000)).length ≤ 3 :=
      (Nat.length_toDigits_le_iff (by omega) (by omega)).mpr (Nat.mod_lt _ (by omega))
    refine ⟨_,_,_,?_,?_,?_,rfl⟩
    · split
      · exact .inr rfl
      · exact .inl rfl
    · rw [List.length_leftpad]
      omega
    · intro c member
      rcases List.mem_append.mp member with padding | digit
      · rw [List.eq_of_mem_replicate padding]
        rfl
      · exact digit_of_mem_renderNat digit

end Fixed3

def jchar (c : Char) : Str :=
  if c = '"' then "\\\"".toList
  else if c = '\\' then "\\\\".toList
  else if c = '\n' then "\\n".toList
  else if c = '\r' then "\\r".toList
  else if c = '\t' then "\\t".toList
  else if c.toNat < 0x20 then "\\u".toList ++ (Nat.toDigits 16 c.toNat).leftpad 4 '0'
  else [c]

/-- A string escaped for JSON: a process name can hold quotes and control characters. -/
def jstr (s : Str) : Str := '"' :: (s.flatMap jchar ++ ['"'])

section
variable (R : Rounding) (P : Fixed3)

def jnum : F64 → Str
  | .fin q => P.text q
  | _ => "null".toList

example : jnum .halfEven (.fin (37/2)) = "18.500".toList := by decide +kernel

def renderSystem (sys : SystemRate) : Str :=
  "\x7b\"cpu_pct\":".toList ++ (jnum P sys.cpuPct ++
  (",\"mem_pct\":".toList ++ (jnum P (sys.mem.usedPct R) ++
  (",\"mem_used\":".toList ++ (renderNat sys.mem.used.toNat ++
  (",\"mem_total\":".toList ++ (renderNat sys.mem.total.toNat ++
  (",\"net_rx_bps\":".toList ++ (jnum P sys.netRxBps ++
  (",\"net_tx_bps\":".toList ++ (jnum P sys.netTxBps ++
  (",\"proc_count\":".toList ++ (renderNat sys.procCount ++
  (",\"vanished\":".toList ++ (renderNat sys.vanished.toNat ++
  (",\"scan_micros\":".toList ++ (renderNat (sys.scanTime / 1000) ++ "\x7d".toList)))))))))))))))))

def renderProc (p : ProcRate) : Str :=
  "\x7b\"pid\":".toList ++ (renderInt p.pid.toInt ++
  (",\"ppid\":".toList ++ (renderInt p.ppid.toInt ++
  (",\"comm\":".toList ++ (jstr p.comm ++
  (",\"cpu_pct\":".toList ++ (jnum P p.cpuPct ++
  (",\"rss\":".toList ++ (renderNat p.rssBytes.toNat ++
  (",\"threads\":".toList ++ (renderInt p.threads.toInt ++
  (",\"read_bps\":".toList ++ ((p.readBps.map (jnum P)).getD "null".toList ++
  (",\"write_bps\":".toList ++ ((p.writeBps.map (jnum P)).getD "null".toList ++ "\x7d".toList)))))))))))))))

def renderAlert (alert : Str × Str × Nat) : Str :=
  "\x7b\"rule\":".toList ++ (jstr alert.1 ++
  (",\"subject\":".toList ++ (jstr alert.2.1 ++
  (",\"firing_secs\":".toList ++ (jnum P (asSecsF64 R alert.2.2) ++ "\x7d".toList)))))

/-- The loops push a comma before every element but the first. -/
def pushAll (texts : List Str) : Str :=
  texts.zipIdx.flatMap (fun entry => (if 0 < entry.2 then [','] else []) ++ entry.1)

def renderJson (snap : Snapshot) (shared : Shared) (top : Nat) : Str :=
  "\x7b\"system\":".toList ++ (renderSystem R P snap.system ++
  (",\"procs\":[".toList ++ (pushAll ((snap.procs.take top).map (renderProc P)) ++
  ("],\"alerts\":[".toList ++ (pushAll (shared.activeAlerts.map (renderAlert R P)) ++ "]\x7d".toList)))))

end
end Vitals.Kernel
