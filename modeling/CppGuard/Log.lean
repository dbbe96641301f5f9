import CppGuard.Library.SpinLock
import CppGuard.OptionsParser

/-!
# `log_msg`

`log_msg` appends a null byte to the message and writes it to where the options say. All but the
appending is under a spin lock. The file is opened for every message. The first call of all
overwrites it, if it goes there. The options stay as they are while a call is underway, and
nothing but `log_msg` writes to its files and streams.
-/
namespace CppGuard
open Transition Pystring OptionsParser

namespace Logger

def nullByte : Char := '\x00'

/-- Where a message can go. -/
inductive Sink where
  | stdout
  | stderr
  | file (name : Str)
  deriving DecidableEq, Repr

/-- What the calls of `log_msg` share. -/
structure Output where
  firstCall : Bool := true
  written : Sink → Str := fun _ => []
  /-- The files that can be opened. -/
  writable : Str → Bool := fun _ => true

/-- What a call has still to do under the lock. -/
inductive Code where
  | testFirst (o : RuntimeOptionsT) (buffer : Str)
  | clearFirst (o : RuntimeOptionsT) (buffer : Str)
  | switch (o : RuntimeOptionsT) (isFirstCall : Bool) (buffer : Str)
  | openFile (name : Str) (isFirstCall : Bool) (buffer : Str)
  /-- Characters on the way to a stream or a file; the end is `flush` or `close`. -/
  | put (sink : Sink) (rest : Str)
  deriving DecidableEq, Repr

namespace Output

def setWritten (out : Output) (sink : Sink) (text : Str) : Output :=
  { out with written := Function.update out.written sink text }

/-- One step of `log_msg` under the lock. -/
def act (out : Output) : Code → Output × Option Code
  | .testFirst o buffer =>
    if out.firstCall then (out, some (.clearFirst o buffer))
    else (out, some (.switch o false buffer))
  | .clearFirst o buffer => ({ out with firstCall := false }, some (.switch o true buffer))
  | .switch o isFirstCall buffer =>
    match o.logType with
    | .disabled => (out, none)
    | .toStdout => (out, some (.put .stdout (cString buffer)))
    | .toStderr => (out, some (.put .stderr (cString buffer)))
    | .toFile => (out, some (.openFile o.logFile isFirstCall buffer))
  | .openFile name isFirstCall buffer =>
    -- A stream that is not open writes nothing.
    if out.writable name then
      (if isFirstCall then out.setWritten (.file name) [] else out,
        some (.put (.file name) buffer))
    else (out, none)
  | .put _ [] => (out, none)
  | .put sink (c :: rest) =>
    (out.setWritten sink (out.written sink ++ [c]), some (.put sink rest))

end Output

/-- The arguments of `log_msg`. -/
structure Call where
  logBuffer : Str
  runtimeOptions : RuntimeOptionsT := {}
  deriving DecidableEq, Repr

/-- What `log_msg` does under the lock. -/
def logMsg (c : Call) : Code := .testFirst c.runtimeOptions (c.logBuffer ++ [nullByte])

/-- The log is called by several threads. -/
abbrev World := SpinLock.State Nat Output Call Code

abbrev World.step : World → SpinLock.Event Nat Call → Option World :=
  SpinLock.step logMsg Output.act

/-- The calls that got the lock. -/
abbrev World.logged (w : World) (es : List (SpinLock.Event Nat Call)) : List (Nat × Call) :=
  linearization World.step SpinLock.acquired w es

/-! ## What a call does -/

/-- Where the message goes. -/
def Call.sink (c : Call) (writable : Str → Bool) : Option Sink :=
  match c.runtimeOptions.logType with
  | .disabled => none
  | .toStdout => some .stdout
  | .toStderr => some .stderr
  | .toFile =>
    if writable c.runtimeOptions.logFile then some (.file c.runtimeOptions.logFile) else none

/-- What is written: in a file the null byte ends the message. -/
def Call.text (c : Call) : Str :=
  if c.runtimeOptions.logType = .toFile then c.logBuffer ++ [nullByte] else cString c.logBuffer

namespace Output

def called (out : Output) : Output := { out with firstCall := false }

/-- What the call leaves of what its sink held. -/
def keptBy (out : Output) (c : Call) (sink : Sink) : Str :=
  if out.firstCall = true ∧ c.runtimeOptions.logType = .toFile then [] else out.written sink

/-- A call as one step. -/
def after (out : Output) (c : Call) : Output :=
  match c.sink out.writable with
  | none => out.called
  | some sink => out.called.setWritten sink (out.keptBy c sink ++ c.text)

/-- What all calls leave of what a sink held. -/
def kept (out : Output) (calls : List Call) (sink : Sink) : Str :=
  match calls with
  | [] => out.written sink
  | c :: _ => if c.sink out.writable = some sink then out.keptBy c sink else out.written sink

/-- The messages of the calls, one after the other. -/
def messages (out : Output) (calls : List Call) (sink : Sink) : List Str :=
  (calls.filter fun c => c.sink out.writable = some sink).map Call.text

variable {out b : Output} {c : Call} {calls : List Call} {sink : Sink}

@[simp] theorem setWritten_self {text : Str} : (out.setWritten sink text).written sink = text :=
  Function.update_self ..

theorem setWritten_of_ne {k : Sink} {text : Str} (h : k ≠ sink) :
    (out.setWritten sink text).written k = out.written k :=
  Function.update_of_ne h ..

theorem setWritten_setWritten {text more : Str} :
    (out.setWritten sink text).setWritten sink more = out.setWritten sink more := by
  simp [setWritten]

@[simp] theorem after_writable : (out.after c).writable = out.writable := by
  unfold after
  split <;> rfl

@[simp] theorem after_firstCall : (out.after c).firstCall = false := by
  unfold after
  split <;> rfl

theorem after_written : (out.after c).written sink =
    out.kept [c] sink ++ (out.messages [c] sink).flatten := by
  unfold after
  cases h : c.sink out.writable with
  | none => simp [kept, messages, called, h]
  | some k =>
    obtain rfl | hne := eq_or_ne sink k
    · simp [kept, messages, h]
    · simp [kept, messages, h, hne.symm, setWritten_of_ne hne, called]

theorem foldl_after_writable : (calls.foldl after out).writable = out.writable := by
  induction calls generalizing out with
  | nil => rfl
  | cons c calls ih => simp [ih]

theorem kept_of_called (h : out.firstCall = false) : out.kept calls sink = out.written sink := by
  cases calls with
  | nil => rfl
  | cons c calls => simp [kept, keptBy, h]

/-- What the calls leave is what they keep, and then their messages. -/
theorem foldl_after_written : (calls.foldl after out).written sink =
    out.kept calls sink ++ (out.messages calls sink).flatten := by
  induction calls generalizing out with
  | nil => simp [kept, messages]
  | cons c calls ih =>
    rw [List.foldl_cons, ih, kept_of_called after_firstCall, after_written]
    by_cases h : c.sink out.writable = some sink <;> simp [kept, messages, h]

theorem foldl_after_firstCall (h : calls ≠ []) : (calls.foldl after out).firstCall = false := by
  cases calls using List.reverseRecOn with
  | nil => exact absurd rfl h
  | append_singleton calls c => simp

theorem kept_append (h : calls ≠ []) : out.kept (calls ++ [c]) sink = out.kept calls sink := by
  cases calls with
  | nil => exact absurd rfl h
  | cons d calls => rfl

/-- What the next call leaves. -/
theorem foldl_after_keptBy (hsink : c.sink out.writable = some sink) :
    (calls.foldl after out).keptBy c sink =
      out.kept (calls ++ [c]) sink ++ (out.messages calls sink).flatten := by
  obtain rfl | hne := eq_or_ne calls []
  · simp [kept, messages, hsink]
  · rw [keptBy, foldl_after_firstCall hne, kept_append hne, foldl_after_written]
    simp

/-- In a file every message ends with its null byte. -/
theorem messages_file {name : Str} : out.messages calls (.file name) =
    (calls.filter fun c => c.sink out.writable = some (.file name)).map
      fun c => c.logBuffer ++ [nullByte] := by
  refine List.map_congr_left fun c hc => ?_
  have hsink : c.sink out.writable = some (.file name) := by simpa using (List.mem_filter.mp hc).2
  unfold Call.sink at hsink
  grind [Call.text]

end Output

/-! ## A call underway -/

open Output

/-- What a call has done, and what it has still to do. -/
inductive Underway (out : Output) (c : Call) : Output → Option Code → Prop
  | testFirst : Underway out c out (some (logMsg c))
  | clearFirst (h : out.firstCall = true) :
      Underway out c out (some (.clearFirst c.runtimeOptions (c.logBuffer ++ [nullByte])))
  | switch : Underway out c out.called
      (some (.switch c.runtimeOptions out.firstCall (c.logBuffer ++ [nullByte])))
  | openFile (h : c.runtimeOptions.logType = .toFile) : Underway out c out.called
      (some (.openFile c.runtimeOptions.logFile out.firstCall (c.logBuffer ++ [nullByte])))
  | put {sink} {part rest : Str} (hsink : c.sink out.writable = some sink)
      (htext : part ++ rest = c.text) :
      Underway out c (out.called.setWritten sink (out.keptBy c sink ++ part))
        (some (.put sink rest))
  | finished : Underway out c (out.after c) none

variable {out b : Output} {c : Call} {calls : List Call}

/-- The appended null byte ends the string, if the message does not. -/
theorem cString_append_nullByte (buffer : Str) :
    cString (buffer ++ [nullByte]) = cString buffer := by
  induction buffer with
  | nil => simp [cString, nullByte]
  | cons a buffer ih => grind [cString, nullByte, List.takeWhile_cons]

/-- The writing begins: the sink holds what the call leaves of it. -/
theorem Underway.begin {sink : Sink} (hsink : c.sink out.writable = some sink)
    (hkept : out.keptBy c sink = out.written sink) :
    Underway out c out.called (some (.put sink c.text)) := by
  have hput : Underway out c (out.called.setWritten sink (out.keptBy c sink ++ []))
    (some (.put sink c.text)) := .put hsink (List.nil_append _)
  simpa [hkept, setWritten, called] using hput

theorem Underway.beginStream {sink : Sink} (hsink : c.sink out.writable = some sink)
    (h : c.runtimeOptions.logType ≠ .toFile) :
    Underway out c out.called (some (.put sink (cString (c.logBuffer ++ [nullByte])))) := by
  have htext : cString (c.logBuffer ++ [nullByte]) = c.text := by
    simp [Call.text, h, cString_append_nullByte]
  rw [htext]
  exact .begin hsink (by simp [keptBy, h])

theorem Underway.nowhere (h : c.sink out.writable = none) : Underway out c out.called none := by
  have hfinished : out.after c = out.called := by simp [after, h]
  exact hfinished ▸ .finished

theorem Underway.act {code : Code} (h : Underway out c b (some code)) :
    Underway out c (b.act code).1 (b.act code).2 := by
  cases h with
  | testFirst =>
    simp only [logMsg, Output.act]
    split_ifs with hfirst
    · exact .clearFirst hfirst
    · have hcalled : out.called = out := by simp [called, ← Bool.eq_false_of_not_eq_true hfirst]
      have hswitch := @Underway.switch out c
      simpa [hcalled, hfirst] using hswitch
  | clearFirst h =>
    have hswitch := @Underway.switch out c
    rwa [h] at hswitch
  | switch =>
    simp only [Output.act]
    split
    case h_1 h => exact .nowhere (by simp [Call.sink, h])
    case h_2 h => exact .beginStream (by simp [Call.sink, h]) (by simp [h])
    case h_3 h => exact .beginStream (by simp [Call.sink, h]) (by simp [h])
    case h_4 h => exact .openFile h
  | openFile h =>
    have htext : c.logBuffer ++ [nullByte] = c.text := by simp [Call.text, h]
    simp only [Output.act, htext]
    by_cases hwritable : out.writable c.runtimeOptions.logFile = true
    · have hsink : c.sink out.writable = some (.file c.runtimeOptions.logFile) := by
        simp [Call.sink, h, hwritable]
      by_cases hfirst : out.firstCall = true
      · have hput : Underway out c (out.called.setWritten _ (out.keptBy c _ ++ []))
          (some (.put _ c.text)) := .put hsink (List.nil_append _)
        simpa [called, keptBy, h, hfirst, hwritable] using hput
      · simpa [called, hfirst, hwritable] using Underway.begin hsink (by simp [keptBy, hfirst])
    · simpa [called, hwritable] using Underway.nowhere (by simp [Call.sink, h, hwritable])
  | @put sink part rest hsink htext =>
    cases rest with
    | nil =>
      have hfinished : out.after c = out.called.setWritten sink (out.keptBy c sink ++ part) := by
        simp [after, hsink, ← htext]
      exact hfinished ▸ .finished
    | cons a rest =>
      have hput : Underway out c (out.called.setWritten sink (out.keptBy c sink ++ (part ++ [a])))
        (some (.put sink rest)) := .put hsink (by simpa using htext)
      simpa [Output.act, setWritten_setWritten] using hput

theorem Underway.of_partway (h : SpinLock.Partway Output.act out (logMsg c) b rest) :
    Underway out c b rest := by
  induction h with
  | start => exact .testFirst
  | act _ ih => exact ih.act

/-- The steps of a call are the call. -/
theorem after_of_partway (out : Output) (c : Call) (b : Output)
    (h : SpinLock.Partway Output.act out (logMsg c) b none) : b = out.after c := by
  cases Underway.of_partway h with
  | finished => rfl

/-- Nothing was written yet, or a part of the message to its sink. -/
theorem Underway.written (h : Underway out c b rest) (sink : Sink) :
    b.written sink = out.written sink ∨ c.sink out.writable = some sink ∧
      ∃ part, part <+: c.text ∧ b.written sink = out.keptBy c sink ++ part := by
  have hput : ∀ k part, c.sink out.writable = some k → part <+: c.text →
      (out.called.setWritten k (out.keptBy c k ++ part)).written sink = out.written sink ∨
      c.sink out.writable = some sink ∧ ∃ part', part' <+: c.text ∧
        (out.called.setWritten k (out.keptBy c k ++ part)).written sink =
          out.keptBy c sink ++ part' := by
    intro k part hk hpart
    obtain rfl | hne := eq_or_ne sink k
    · exact .inr ⟨hk, part, hpart, setWritten_self⟩
    · exact .inl (setWritten_of_ne hne)
  cases h with
  | testFirst | clearFirst | switch | openFile => exact .inl rfl
  | put hsink htext => exact hput _ _ hsink (htext ▸ List.prefix_append ..)
  | finished =>
    unfold after
    cases hk : c.sink out.writable with
    | none => exact .inl rfl
    | some k => simpa [hk] using hput k c.text hk (List.prefix_refl _)

/-- More than the steps that are left. -/
def Code.rank : Code → Nat
  | .testFirst _ buffer => buffer.length + 4
  | .clearFirst _ buffer => buffer.length + 3
  | .switch _ _ buffer => buffer.length + 2
  | .openFile _ _ buffer => buffer.length + 1
  | .put _ rest => rest.length

theorem cString_length_le (buffer : Str) : (cString buffer).length ≤ buffer.length :=
  (List.takeWhile_sublist _).length_le

theorem rank_act (out : Output) (code code' : Code) (h : (out.act code).2 = some code') :
    code'.rank < code.rank := by
  cases code with
  | testFirst o buffer | openFile name isFirstCall buffer | clearFirst o buffer =>
    grind [Output.act, Code.rank]
  | switch o isFirstCall buffer =>
    have hle := cString_length_le buffer
    grind [Output.act, Code.rank]
  | put sink rest => cases rest <;> grind [Output.act, Code.rank]

namespace World

variable {w t : World} {es : List (SpinLock.Event Nat Call)}

/-- The calls one at a time, in the order in which they got the lock. -/
theorem exec_serial (hflag : w.flag = false) (hidle : ∀ i, w.position i = .outside)
    (h : exec World.step w es = some t) :
    SpinLock.Serial logMsg Output.act after w.shared t (w.logged es) :=
  SpinLock.exec_serial after_of_partway hflag (by simp [hidle]) h

/-- With the lock free all messages are written. -/
theorem written_of_free (hflag : w.flag = false) (hidle : ∀ i, w.position i = .outside)
    (h : exec World.step w es = some t) (htflag : t.flag = false) (sink : Sink) :
    t.shared.written sink = w.shared.kept ((w.logged es).map Prod.snd) sink ++
      (w.shared.messages ((w.logged es).map Prod.snd) sink).flatten := by
  generalize hcalls : w.logged es = calls
  cases hcalls ▸ exec_serial hflag hidle h with
  | held flag => simp [htflag] at flag
  | free _ _ shared => rw [shared, ← List.foldl_map, foldl_after_written]

/-- Every message is written in one piece, in the order in which the calls got the lock, and every
thread gets it in the order of its calls. What was there before stays, but for the file to which
the first call of all goes. Of a call underway a part may be missing at the end. -/
theorem exec_written (hflag : w.flag = false) (hidle : ∀ i, w.position i = .outside)
    (h : exec World.step w es = some t) :
    (∀ i, es.flatMap (SpinLock.called i) =
      (w.logged es).flatMap (SpinLock.callOf i) ++ SpinLock.waiting i t) ∧
    (t.flag = false → ∀ sink, t.shared.written sink =
      w.shared.kept ((w.logged es).map Prod.snd) sink ++
        (w.shared.messages ((w.logged es).map Prod.snd) sink).flatten) ∧
    (t.flag = true → ∃ done i c, w.logged es = done ++ [(i, c)] ∧ ∀ sink,
      t.shared.written sink = w.shared.kept (done.map Prod.snd) sink ++
        (w.shared.messages (done.map Prod.snd) sink).flatten ∨
      c.sink w.shared.writable = some sink ∧ ∃ part, part <+: c.text ∧
        t.shared.written sink = w.shared.kept (done.map Prod.snd ++ [c]) sink ++
          (w.shared.messages (done.map Prod.snd) sink).flatten ++ part) := by
  refine ⟨?_, written_of_free hflag hidle h, ?_⟩
  · intro i
    have hcalled := SpinLock.exec_called i h
    simpa [SpinLock.waiting, hidle] using hcalled
  · intro htflag
    generalize hcalls : w.logged es = calls
    cases hcalls ▸ exec_serial hflag hidle h with
    | free flag => simp [htflag] at flag
    | @held done i c rest _ inside _ partway =>
      refine ⟨done, i, c, rfl, fun sink => ?_⟩
      rw [← List.foldl_map] at partway
      obtain hnone | ⟨hsink, part, hpart, hwritten⟩ := (Underway.of_partway partway).written sink
      · exact .inl (hnone.trans foldl_after_written)
      · rw [foldl_after_writable] at hsink
        exact .inr ⟨hsink, part, hpart, hwritten.trans (by rw [foldl_after_keptBy hsink])⟩

/-- Two threads log to a file that exists. The second one finds the lock taken. -/
def sample : World × List (SpinLock.Event Nat Call) :=
  let options : RuntimeOptionsT := { logType := .toFile, logFile := "log".toList }
  ({ shared := { written := fun _ => "old".toList } },
    [.call 1 ⟨"ab".toList, options⟩, .call 2 ⟨"c".toList, options⟩, .run 1, .run 2, .run 2] ++
      List.replicate 9 (.run 1) ++ List.replicate 9 (.run 2))

theorem exec_sample : ∃ t, exec World.step sample.1 sample.2 = some t ∧ (t.flag = false ∧
    t.shared.written (.file "log".toList) =
      "ab".toList ++ [nullByte] ++ "c".toList ++ [nullByte]) :=
  exists_exec (by decide +kernel)

theorem exec_written_sample : ∃ t, exec World.step sample.1 sample.2 = some t ∧
    ∀ sink, t.shared.written sink =
      sample.1.shared.kept ((sample.1.logged sample.2).map Prod.snd) sink ++
        (sample.1.shared.messages ((sample.1.logged sample.2).map Prod.snd) sink).flatten := by
  obtain ⟨t, hrun, hflag, -⟩ := exec_sample
  exact ⟨t, hrun, (exec_written rfl (fun _ => rfl) hrun).2.1 hflag⟩

/-! ## Every call returns -/

/-- Whatever was called can be brought to its end, and then every message is where it belongs, and
every thread has its messages there in the order of its calls. -/
theorem exec_all_written (hflag : w.flag = false) (hidle : ∀ i, w.position i = .outside)
    (h : exec World.step w es = some t) :
    ∃ (is : List Nat) (u : World), exec World.step w (es ++ is.map .run) = some u ∧
      (∀ i, u.position i = .outside) ∧
      (∀ i, es.flatMap (SpinLock.called i) =
        (w.logged (es ++ is.map .run)).flatMap (SpinLock.callOf i)) ∧
      ∀ sink, u.shared.written sink =
        w.shared.kept ((w.logged (es ++ is.map .run)).map Prod.snd) sink ++
          (w.shared.messages ((w.logged (es ++ is.map .run)).map Prod.snd) sink).flatten := by
  obtain ⟨is, u, hu, huidle⟩ := SpinLock.exec_drain logMsg (fun _ => Code.rank) after_of_partway
    rank_act hflag hidle h
  have hrun := exec_append.mpr ⟨t, h, hu⟩
  refine ⟨is, u, hrun, huidle, ?_, ?_⟩
  · intro i
    have hcalled := SpinLock.exec_called i hrun
    have hnone : (is.map SpinLock.Event.run).flatMap (SpinLock.called (C := Call) i) = [] := by
      simp [List.flatMap_map, SpinLock.called]
    simpa [SpinLock.waiting, hidle, huidle, hnone] using hcalled
  · exact written_of_free hflag hidle hrun ((exec_serial hflag hidle hrun).flag_of_idle huidle)

theorem exec_all_written_sample : ∃ (is : List Nat) (u : World),
    exec World.step sample.1 (sample.2.take 8 ++ is.map .run) = some u ∧
      ∀ i, u.position i = .outside := by
  obtain ⟨t, hrun, -⟩ : ∃ t, exec World.step sample.1 (sample.2.take 8) = some t ∧ True :=
    exists_exec (by decide +kernel)
  obtain ⟨is, u, hu, hidle, -⟩ := exec_all_written rfl (fun _ => rfl) hrun
  exact ⟨is, u, hu, hidle⟩

/-! ## Reading the file back -/

theorem splitOn_terminated {α : Type*} [DecidableEq α] {a : α} {pieces : List (List α)}
    (h : ∀ piece ∈ pieces, a ∉ piece) :
    (pieces.flatMap (· ++ [a])).splitOn a = pieces ++ [[]] := by
  induction pieces with
  | nil => rfl
  | cons piece pieces ih =>
    obtain ⟨hpiece, hpieces⟩ := List.forall_mem_cons.mp h
    simp only [List.flatMap_cons, List.append_assoc, List.cons_append, List.nil_append]
    rw [List.splitOn_append_cons_self_of_not_mem hpiece, ih hpieces]

/-- The null bytes cut a file that holds only messages into the messages again. -/
theorem exec_splitOn {name : Str} (hflag : w.flag = false) (hidle : ∀ i, w.position i = .outside)
    (h : exec World.step w es = some t) (htflag : t.flag = false)
    (hkept : w.shared.kept ((w.logged es).map Prod.snd) (.file name) = [])
    (hnull : ∀ c ∈ w.logged es, nullByte ∉ c.2.logBuffer) :
    (t.shared.written (.file name)).splitOn nullByte =
      (((w.logged es).map Prod.snd).filter
        fun c => c.sink w.shared.writable = some (.file name)).map Call.logBuffer ++ [[]] := by
  have hnull' : ∀ piece ∈ (((w.logged es).map Prod.snd).filter
      fun c => c.sink w.shared.writable = some (.file name)).map Call.logBuffer,
      nullByte ∉ piece := by
    simp only [List.forall_mem_map, List.mem_filter]
    rintro c ⟨hc, -⟩
    obtain ⟨call, hcall, rfl⟩ := List.mem_map.mp hc
    exact hnull call hcall
  rw [written_of_free hflag hidle h htflag, hkept, List.nil_append, messages_file,
    ← splitOn_terminated hnull', List.flatMap_map]
  rfl

theorem exec_splitOn_sample : ∃ t, exec World.step sample.1 sample.2 = some t ∧
    (t.shared.written (.file "log".toList)).splitOn nullByte =
      ["ab".toList, "c".toList, []] := by
  obtain ⟨t, hrun, hflag, -⟩ := exec_sample
  refine ⟨t, hrun, (exec_splitOn rfl (fun _ => rfl) hrun hflag ?_ ?_).trans ?_⟩ <;> decide +kernel

/-! ## Waiting for the lock -/

/-- While it waits for the lock, a thread writes to the flag once for each of its calls, and else
only because another thread took the lock just before. -/
theorem exec_flag_writes_le (i : Nat) (hidle : w.position i = .outside)
    (h : exec World.step w es = some t) :
    (linearization World.step (SpinLock.failed i) w es).length ≤
      (es.flatMap (SpinLock.called i)).length + (w.logged es).countP (·.1 ≠ i) := by
  have hdoomed : SpinLock.doomed i w = 0 := by simp [SpinLock.doomed, hidle]
  have hle := SpinLock.exec_failed_le i h
  rw [hdoomed, Nat.zero_add] at hle
  exact (Nat.le_add_right _ _).trans hle

theorem exec_flag_writes_le_sample : ∃ t, exec World.step sample.1 sample.2 = some t ∧
    (linearization World.step (SpinLock.failed 2) sample.1 sample.2).length ≤ 1 + 1 := by
  obtain ⟨t, hrun, -⟩ := exec_sample
  exact ⟨t, hrun, exec_flag_writes_le 2 rfl hrun⟩

end World
end Logger
end CppGuard
