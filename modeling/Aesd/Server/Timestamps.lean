import Aesd.ProofKit.Numerals
import Aesd.Server.Reception
import Aesd.Server.TimerReleases

/-! The texts that the timer thread adds to the file. `strftime` makes them by `DATEFMT`, so that
they all have the same length, and their order as texts is the order of the times. With them and the
lines of the clients, the file is made of lines. -/

namespace Aesd.Server

open Aesd.Driver ProofKit

/-- The fields of `struct tm` that `DATEFMT` names, as `localtime_r` sets them. In the years from
1000 to 9999 `%Y` has four digits. -/
structure Tm where
  tmYear : Int
  tmMon : Nat
  tmMday : Nat
  tmHour : Nat
  tmMin : Nat
  tmSec : Nat
  year : 1000 ≤ tmYear + 1900 ∧ tmYear + 1900 ≤ 9999
  mon : tmMon ≤ 11
  mday : 1 ≤ tmMday ∧ tmMday ≤ 31
  hour : tmHour ≤ 23
  min : tmMin ≤ 59
  sec : tmSec ≤ 60

/-- `DATEFMT`, `"timestamp:%Y_%m_%d_%H:%M:%S\n"`. -/
def datefmt : List Char :=
  ['t', 'i', 'm', 'e', 's', 't', 'a', 'm', 'p', ':', '%', 'Y', '_', '%', 'm', '_', '%', 'd', '_',
    '%', 'H', ':', '%', 'M', ':', '%', 'S', '\n']

/-- What `strftime` writes for a conversion. Those that `DATEFMT` does not have are left out. -/
def Tm.conversion (tm : Tm) : Char → List UInt8
  | 'Y' => numeral 4 (tm.tmYear + 1900).toNat
  | 'm' => numeral 2 (tm.tmMon + 1)
  | 'd' => numeral 2 tm.tmMday
  | 'H' => numeral 2 tm.tmHour
  | 'M' => numeral 2 tm.tmMin
  | 'S' => numeral 2 tm.tmSec
  | _ => []

def Tm.expand (tm : Tm) : List Char → List UInt8
  | '%' :: c :: format => tm.conversion c ++ tm.expand format
  | c :: format => c.toNat.toUInt8 :: tm.expand format
  | [] => []

/-- `strftime`, which writes nothing when the text and its terminator do not fit. -/
def strftime (max : Nat) (format : List Char) (tm : Tm) : List UInt8 :=
  if (tm.expand format).length < max then tm.expand format else []

/-- The text that the timer thread writes. -/
def Tm.nowStr (tm : Tm) : List UInt8 := strftime (datesize + 1) datefmt tm

/-- The time that the text is about, from the year down to the second. -/
def Tm.time (tm : Tm) : List Nat :=
  [(tm.tmYear + 1900).toNat, tm.tmMon + 1, tm.tmMday, tm.tmHour, tm.tmMin, tm.tmSec]

/-- The fields of the text, with what comes before them. -/
def dateFields : List (FixedField Tm) :=
  let text (s : List Char) : List UInt8 := s.map fun c => c.toNat.toUInt8
  [⟨text ['t', 'i', 'm', 'e', 's', 't', 'a', 'm', 'p', ':'], 4, fun tm => (tm.tmYear + 1900).toNat⟩,
    ⟨text ['_'], 2, fun tm => tm.tmMon + 1⟩, ⟨text ['_'], 2, Tm.tmMday⟩,
    ⟨text ['_'], 2, Tm.tmHour⟩, ⟨text [':'], 2, Tm.tmMin⟩, ⟨text [':'], 2, Tm.tmSec⟩]

variable {tm tm' : Tm}

theorem expand_datefmt (tm : Tm) :
    tm.expand datefmt = render dateFields [newline] tm := by
  simp [datefmt, Tm.expand, Tm.conversion, render, dateFields, newline]

theorem nowStr_eq (tm : Tm) : tm.nowStr = render dateFields [newline] tm := by
  have fits : (tm.expand datefmt).length < datesize + 1 := by
    rw [expand_datefmt, length_render]
    decide
  rw [Tm.nowStr, strftime, if_pos fits, expand_datefmt]

theorem Tm.fits (tm tm' : Tm) (field : FixedField Tm) (mem : field ∈ dateFields) :
    field.value tm < 10 ^ field.width ∧ field.value tm' < 10 ^ field.width := by
  have one (tm : Tm) : field.value tm < 10 ^ field.width := by
    obtain ⟨year, mon, mday, hour, min, sec, hyear, hmon, hmday, hhour, hmin, hsec⟩ := tm
    simp only [dateFields, List.mem_cons, List.not_mem_nil, or_false] at mem
    rcases mem with rfl | rfl | rfl | rfl | rfl | rfl <;> simp only <;> omega
  exact ⟨one tm, one tm'⟩

theorem Tm.isLine (tm : Tm) : IsLine tm.nowStr := by
  have body : render dateFields [newline] tm =
      render dateFields [] tm ++ [newline] := by simp [render]
  rw [nowStr_eq, body]
  refine ⟨List.getLast?_concat, ?_⟩
  rw [List.dropLast_concat]
  exact not_mem_render (by decide) (.inl (by decide)) (by decide)

/-- Each timestamp has `DATESIZE` bytes and is a line. As texts, two of them are the same or come in
an order exactly as their times do. -/
theorem timestamp_order (tm tm' : Tm) :
    tm.nowStr.length = datesize ∧ IsLine tm.nowStr ∧ 0 ∉ tm.nowStr ∧
      (tm.nowStr = tm'.nowStr ↔ tm.time = tm'.time) ∧
      (tm.nowStr < tm'.nowStr ↔ tm.time < tm'.time) := by
  have isLine := tm.isLine
  rw [nowStr_eq] at isLine
  rw [nowStr_eq, nowStr_eq]
  refine ⟨?_, isLine, ?_, render_inj _ (tm.fits tm'), render_lt_iff _ (tm.fits tm')⟩
  · rw [length_render]
    rfl
  · exact not_mem_render (by decide) (.inl (by decide)) (by decide)

/-! The file as lines. -/

/-- `P` holds of the timestamp that the thread is about to write. -/
def TimerHandler.Known (P : List UInt8 → Prop) (h : TimerHandler) : Prop :=
  match h.pc with
  | .lock | .write _ | .unlock _ => P h.nowStr
  | _ => True

theorem TimerHandler.Known.mono {P Q : List UInt8 → Prop} {h : TimerHandler} (known : h.Known P)
    (weaker : ∀ nowStr, P nowStr → Q nowStr) : h.Known Q := by
  unfold Known at known ⊢
  split at known
  case h_4 => trivial
  all_goals exact weaker _ known

theorem TimerHandler.Known.of_writeStatus {P : List UInt8 → Prop} {h : TimerHandler}
    {returned : Int} (known : h.Known P) (status : h.writeStatus = some returned) :
    P h.nowStr := by
  unfold writeStatus at status
  split at status
  · rename_i pc
    simpa only [Known, pc] using known
  · contradiction

theorem TimerHandler.Known.step {P : List UInt8 → Prop} {h h' : TimerHandler} {event : TimerEvent}
    (known : h.Known P) (step : h.step event = some h')
    (made : ∀ nowStr, event = .strftime nowStr → P nowStr) : h'.Known P := by
  unfold Known at known
  cases TimerHandler.Step.outcome step with
  | strftime pc nowStr => exact made nowStr rfl
  | lock pc | write _ pc =>
    simp only [pc] at known
    rcases writePc_cases _ with ⟨-, next⟩ | ⟨-, next⟩ <;> rw [next] <;> exact known
  | writeFailed _ pc =>
    simp only [pc] at known
    exact known
  | sigExit pc isSet => cases isSet <;> trivial
  | sigwait pc error signo =>
    by_cases term : signo = sigterm
    · rw [if_pos term]
      trivial
    · rw [if_neg term]
      trivial
  | _ => trivial

/-- Unless a `write` failed, `putchars` does not. -/
theorem ConnHandler.writeStatus_of_step {useAesdCharDevice : Bool} {h h' : ConnHandler}
    {event : Event} (step : h.step useAesdCharDevice event = some h')
    (written : event ≠ .write none) : h'.writeStatus = none ∨ h'.writeStatus = some 0 := by
  cases step_moves step with
  | getline pc packet =>
    left
    rcases dispatch_pc useAesdCharDevice { h with packet } with pc | pc | ⟨_, pc⟩ <;>
      simp [writeStatus, pc]
  | lock pc | write _ pc =>
    rcases writePc_cases _ with ⟨-, next⟩ | ⟨-, next⟩ <;> rw [next]
    · exact .inr rfl
    · exact .inl rfl
  | send _ pc =>
    rcases sendPc_cases _ with ⟨-, next⟩ | ⟨-, next⟩ <;> rw [next] <;> exact .inl rfl
  | writeFailed => exact absurd rfl written
  | _ => exact .inl rfl

theorem TimerHandler.writeStatus_of_step {h h' : TimerHandler} {event : TimerEvent}
    (step : h.step event = some h') (written : event ≠ .write none) :
    h'.writeStatus = none ∨ h'.writeStatus = some 0 := by
  cases TimerHandler.step_moves step with
  | lock pc | write _ pc =>
    rcases writePc_cases _ with ⟨-, next⟩ | ⟨-, next⟩ <;> rw [next]
    · exact .inr rfl
    · exact .inl rfl
  | writeFailed => exact absurd rfl written
  | unlock _ _ _ _ _ none => exact .inl none
  | other _ _ _ _ none => exact .inl none

/-- A `write` that failed. -/
def Label.writeFailed : Label → Bool
  | .conn _ (.write none) | .timer (.write none) => true
  | _ => false

section Lines

variable {file : List UInt8} {labels : List Label} {l : Ledger}

theorem FileServer.mem_returns {s : FileServer} {t : Thread} {call : Call}
    (mem : call ∈ s.returns t) :
    call.thread = t ∧ call.record = s.record t ∧ s.writeStatus t = some call.returned := by
  unfold returns at mem
  split at mem
  · rename_i returned status
    obtain rfl := List.mem_singleton.mp mem
    exact ⟨rfl, rfl, status⟩
  · simp at mem

/-- The timestamps that were written are those that `strftime` made. -/
theorem Ledger.timestamps (run : Run Ledger.Step (.start file) labels l) :
    (l.server.timer.Known fun nowStr => .timer (.strftime nowStr) ∈ labels) ∧
      ∀ call ∈ l.calls, call.thread = .timer → .timer (.strftime call.record) ∈ labels := by
  refine run.history (P := fun labels l =>
    (l.server.timer.Known fun nowStr => .timer (.strftime nowStr) ∈ labels) ∧
      ∀ call ∈ l.calls, call.thread = .timer → .timer (.strftime call.record) ∈ labels)
    ⟨trivial, by simp [Ledger.start]⟩ ?_
  rintro earlier label l l' - ⟨known, recorded⟩ ⟨step, -, calls⟩
  have known' : l'.server.timer.Known fun nowStr =>
      .timer (.strftime nowStr) ∈ earlier ++ [label] := by
    have old := known.mono (Q := fun nowStr => .timer (.strftime nowStr) ∈ earlier ++ [label])
      fun _ => List.mem_append_left _
    cases label with
    | conn i event =>
      obtain ⟨h, e, -, effect, same⟩ := FileServer.step_conn step
      rw [same]
      exact (FileServer.connEffect_threads effect).2 ▸ old
    | timer event =>
      obtain ⟨h, e, moved, -, same⟩ := FileServer.step_timer step
      rw [same]
      exact old.step moved fun nowStr is => is ▸ List.mem_append_right _ (by simp)
  refine ⟨known', fun call mem thread => ?_⟩
  rw [calls] at mem
  rcases List.mem_append.mp mem with old | new
  · exact List.mem_append_left _ (recorded call old thread)
  · obtain ⟨mine, record, status⟩ := FileServer.mem_returns new
    rw [← mine, thread] at status record
    rw [record]
    exact known'.of_writeStatus status

/-- When no `write` fails, each record is written whole. -/
theorem Ledger.whole (run : Run Ledger.Step (.start file) labels l)
    (written : ∀ label ∈ labels, label.writeFailed = false) :
    ∀ call ∈ l.calls, call.returned = 0 := by
  refine run.history (P := fun labels l => (∀ label ∈ labels, label.writeFailed = false) →
    ∀ call ∈ l.calls, call.returned = 0) (by simp [Ledger.start]) ?_ written
  rintro earlier label l l' - ih ⟨step, -, calls⟩ written call mem
  rw [calls] at mem
  rcases List.mem_append.mp mem with old | new
  · exact ih (fun label mem => written label (List.mem_append_left _ mem)) call old
  · obtain ⟨-, -, status⟩ := FileServer.mem_returns new
    have fine := written label (by simp)
    have after : l'.server.writeStatus label.thread = none ∨
        l'.server.writeStatus label.thread = some 0 := by
      cases label with
      | conn i event =>
        obtain ⟨h, e, moved, -, same⟩ := FileServer.step_conn step
        rw [same]
        simpa [FileServer.writeStatus, Label.thread] using ConnHandler.writeStatus_of_step moved
          (by rintro rfl; simp [Label.writeFailed] at fine)
      | timer event =>
        obtain ⟨h, e, moved, -, same⟩ := FileServer.step_timer step
        rw [same]
        exact TimerHandler.writeStatus_of_step moved
          (by rintro rfl; simp [Label.writeFailed] at fine)
    rw [status] at after
    simpa using after

/-- The owner of the mutex that is still writing has not written the newline. -/
theorem FileServer.unfinished {s : FileServer} {t : Thread} {record done : List UInt8}
    (writing : s.Writing) (stage : s.stage t = .writing record done) (line : IsLine record)
    (front : done <+: record) : newline ∉ done := by
  have short : done ≠ record := by
    cases t with
    | conn i =>
      simp only [FileServer.stage, ConnHandler.stage] at stage
      split at stage <;> try contradiction
      rename_i chars pc
      obtain ⟨rfl, rfl⟩ := Stage.writing.inj stage
      obtain ⟨buffer, more⟩ := writing.1 i chars pc
      rwa [← buffer, Ne, chars.done_eq_iff]
    | timer =>
      simp only [FileServer.stage, TimerHandler.stage] at stage
      split at stage <;> try contradiction
      rename_i chars pc
      obtain ⟨rfl, rfl⟩ := Stage.writing.inj stage
      obtain ⟨buffer, more⟩ := writing.2 chars pc
      rwa [← buffer, Ne, chars.done_eq_iff]
  obtain ⟨body, rfl, only⟩ := line.eq_append
  rcases List.prefix_concat_iff.mp front with whole | inner
  · exact absurd whole short
  · exact fun mem => only (inner.subset mem)

/-- What is being written is a line. -/
theorem Ledger.writing_line (run : Run Ledger.Step (.start file) labels l)
    (packets : ∀ i packet, .conn i (.getline (some packet)) ∈ labels → IsLine packet)
    (stamps : ∀ nowStr, .timer (.strftime nowStr) ∈ labels → IsLine nowStr) {t : Thread}
    {record done : List UInt8} (stage : l.server.stage t = .writing record done) :
    IsLine record := by
  cases t with
  | conn i =>
    simp only [FileServer.stage, ConnHandler.stage] at stage
    split at stage <;> try contradiction
    rename_i chars pc
    have known := (Ledger.known run).1 i
    simp only [ConnHandler.Known, pc] at known
    exact (Stage.writing.inj stage).1 ▸ packets i _ known
  | timer =>
    simp only [FileServer.stage, TimerHandler.stage] at stage
    split at stage <;> try contradiction
    rename_i chars pc
    have known := (Ledger.timestamps run).1
    simp only [TimerHandler.Known, pc] at known
    exact (Stage.writing.inj stage).1 ▸ stamps _ known

/-- The blocks of calls that returned 0 are their records. -/
theorem Ledger.blocks_eq {blocks : List (List UInt8)}
    (kept : List.Forall₂ LockedLog.Kept l.view.records blocks)
    (returned : ∀ call ∈ l.calls, call.returned = 0) : blocks = l.calls.map Call.record := by
  have both := (List.forall₂_and_left _ _).mpr ⟨returned, List.forall₂_map_left_iff.mp kept⟩
  have same : List.Forall₂ (fun call block => Call.record call = block) l.calls blocks :=
    both.imp fun call block left => by simpa [LockedLog.Kept, left.1, eq_comm] using left.2
  exact (List.forall₂_eq_eq_eq ▸ List.forall₂_map_left_iff.mpr same).symm

/-- In a run in which the mutex works and no `write` fails, no `strcpy` leaves its block,
`sock_getline` returns only where the bytes received were exactly a line, and `strftime` does what
it is for: the file is what it was at first and lines, each of them the first line that a client
sent or a timestamp, and behind them at most a part of a line without its newline. -/
theorem file_lines {initial : Nat → Fin Getline.buflen → UInt8} {block : Nat → Nat → UInt8}
    {labels : List (NetLabel Label)} {r : Reception}
    (run : Run (NetStep fileListener) (.start file, .start initial block) labels (l, r))
    (ok : ∀ label, .call label ∈ labels → label.mutexError = 0)
    (written : ∀ label, .call label ∈ labels → label.writeFailed = false)
    (arrived : r.Arrived initial)
    (times : ∀ nowStr, .call (.timer (.strftime nowStr)) ∈ labels →
      ∃ tm : Tm, nowStr = tm.nowStr) :
    ∃ current, l.server.file = file ++ (l.calls.map Call.record).flatten ++ current ∧
      newline ∉ current ∧ ∀ call ∈ l.calls, IsLine call.record ∧
        match call.thread with
        | .conn i => call.record = r.line i
        | .timer => ∃ tm : Tm, call.record = tm.nowStr := by
  obtain ⟨ls, calls, labelled, line⟩ := NetStep.project_file run arrived
  have made : ∀ label ∈ ls, label.mutexError = 0 ∧ label.writeFailed = false := by
    intro label mem
    rcases labelled label mem with call | ⟨i, packet, rfl⟩
    · exact ⟨ok label call, written label call⟩
    · exact ⟨rfl, rfl⟩
  have stamps (nowStr : List UInt8) (mem : .timer (.strftime nowStr) ∈ ls) :
      ∃ tm : Tm, nowStr = tm.nowStr := by
    rcases labelled _ mem with call | ⟨i, packet, other⟩
    · exact times nowStr call
    · cases other
  have packets (i : Nat) (packet : List UInt8) (mem : .conn i (.getline (some packet)) ∈ ls) :
      IsLine packet := by
    obtain ⟨returned, rfl⟩ := line i packet mem
    exact arrived.isLine returned
  have isStamp (nowStr : List UInt8) (mem : .timer (.strftime nowStr) ∈ ls) : IsLine nowStr := by
    obtain ⟨tm, rfl⟩ := stamps nowStr mem
    exact tm.isLine
  have works : ∀ label ∈ ls, label.mutexError = 0 := fun label mem => (made label mem).1
  obtain ⟨writing, -, -⟩ := Ledger.simulates calls works
  obtain ⟨blocks, current, log, kept, inside⟩ := Ledger.intact calls works
  have returned := Ledger.whole calls fun label mem => (made label mem).2
  rw [Ledger.blocks_eq kept returned] at log
  refine ⟨current, log, ?_, fun call mem => ?_⟩
  · cases owner : l.server.mutex with
    | none =>
      obtain ⟨rfl, -⟩ := inside.free owner
      exact List.not_mem_nil
    | some t =>
      rcases inside.owned owner with ⟨record, stage, front, -⟩ | ⟨-, rfl, -⟩
      · exact FileServer.unfinished writing stage
          (Ledger.writing_line calls packets isStamp stage) front
      · exact List.not_mem_nil
  · cases thread : call.thread with
    | conn i =>
      have received := (Ledger.known calls).2 call mem i thread
      exact ⟨packets i _ received, (line i _ received).2⟩
    | timer =>
      have stamp := (Ledger.timestamps calls).2 call mem thread
      exact ⟨isStamp _ stamp, stamps _ stamp⟩

/-- Seven seconds past 23:59 on the last day of January 2024. -/
def lateJanuary : Tm := ⟨124, 0, 31, 23, 59, 7, by decide, by decide, by decide, by decide,
  by decide, by decide⟩

/-- A timestamp, and behind it the first byte of the line of a client. -/
theorem file_lines_two : ∃ l : Ledger, l.calls.map Call.thread = [.timer] ∧ ∃ current,
    l.server.file = (l.calls.map Call.record).flatten ++ current ∧ newline ∉ current ∧
      ∀ call ∈ l.calls, IsLine call.record := by
  have run : Run (NetStep fileListener)
      (.start [], .start (fun _ _ => newline) (fun _ i => i.toUInt8))
      [.call (.timer (.sigmask 0)), .call (.conn 0 (.openFile true)),
        .call (.timer (.openFile true)), .call (.timer (.timerCreate true)),
        .call (.timer (.timerSettime true)), .recv 0 (.of (List.replicate 64 97) (by decide)),
        .call (.timer (.sigExit false)), .call (.timer (.sigwait 0 14)),
        .recv 0 (.of [98, newline] (by decide)),
        .call (.timer (.time true)), .call (.timer (.localtime true)),
        .call (.timer (.strftime lateJanuary.nowStr)), .call (.timer (.lock 0)),
        .call (.timer (.write (some 30))), .call (.timer (.unlock 0)), .call (.conn 0 (.lock 0)),
        .call (.conn 0 (.write (some 1)))] (_, twoReads) :=
    .cons (.call (by simp [fileListener]) (Ledger.step_noted rfl))
      (.cons (.call (by simp [fileListener]) (Ledger.step_noted rfl))
      (.cons (.call (by simp [fileListener]) (Ledger.step_noted rfl))
      (.cons (.call (by simp [fileListener]) (Ledger.step_noted rfl))
      (.cons (.call (by simp [fileListener]) (Ledger.step_noted rfl))
      (.cons (.recv rfl rfl (by decide))
      (.cons (.call (by simp [fileListener]) (Ledger.step_noted rfl))
      (.cons (.call (by simp [fileListener]) (Ledger.step_noted rfl))
      (.cons (.ended rfl rfl (by decide) (Ledger.step_noted rfl))
      (.cons (.call (by simp [fileListener]) (Ledger.step_noted rfl))
      (.cons (.call (by simp [fileListener]) (Ledger.step_noted rfl))
      (.cons (.call (by simp [fileListener]) (Ledger.step_noted rfl))
      (.cons (.call (by simp [fileListener]) (Ledger.step_noted rfl))
      (.cons (.call (by simp [fileListener]) (Ledger.step_noted rfl))
      (.cons (.call (by simp [fileListener]) (Ledger.step_noted rfl))
      (.cons (.call (by simp [fileListener]) (Ledger.step_noted rfl))
      (.cons (.call (by simp [fileListener]) (Ledger.step_noted rfl)) (.nil _)))))))))))))))))
  obtain ⟨current, log, inner, lines⟩ := file_lines run (by simp [Label.mutexError])
    (by simp [Label.writeFailed]) twoReads_arrived (by simp)
  exact ⟨_, rfl, current, log, inner, fun call mem => (lines call mem).1⟩

end Lines

end Aesd.Server
