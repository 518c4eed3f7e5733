import Cs2520.Lib.Bytes
import Cs2520.Lib.Machine
import Cs2520.P1.Packet

/-
  The copy over TCP (`p1/source/t_ncp.c` and
  `p1/source/t_rcv.c`).

  The sender writes `sizeof(Dest_file_name)` bytes, which is
  the size of a pointer, and then the file. The receiver
  takes its first `recv` for the name and all others for the
  file. So both agree only about names of at most that size,
  and only if the first `recv` returns exactly these bytes.

  Main declarations:
    * `TNcp.stream`
    * `TRcv`
    * `TRcv.machine`
    * `TRcv.Copied`
    * `TRcv.copied_iff`
    * `TRcv.name_cut`
-/

------------------------------------------------------------
-- The Sender
------------------------------------------------------------

namespace Cs2520

namespace P1

namespace TNcp

open Lib

/-
  `send(sock, Dest_file_name, sizeof(Dest_file_name), 0)`:
  the name, its end and what lies behind it in memory, up to
  the size of a pointer.
-/
def sendName
    (destFileName : List UInt8)
    (memory : Nat → UInt8) : List UInt8 :=
  (destFileName ++
    0 :: List.ofFn (fun i : Fin pointerSize => memory i)
    ).take pointerSize

/-
  The loop over the results of `read`: each is sent as it is,
  and the empty one at the end of the file is the last.
-/
def sendFile : List (List UInt8) → List (List UInt8)
  | [] => []
  | mess :: reads =>
      if mess.length = 0 then
        [mess]
      else
        mess :: sendFile reads

/- All bytes that go into the connection. -/
def stream
    (destFileName : List UInt8)
    (memory : Nat → UInt8)
    (reads : List (List UInt8)) : List UInt8 :=
  sendName destFileName memory ++
    (sendFile (reads ++ [[]])).flatten

/- The whole file is sent, however it is read. -/
theorem flatten_sendFile
    {content : List UInt8}
    {reads : List (List UInt8)}
    (hReads : Cut maxMessLen content reads) :
    (sendFile (reads ++ [[]])).flatten = content := by
  induction reads generalizing content with
  | nil => exact hReads.whole
  | cons mess reads ih =>
      have hPos := hReads.pos mess List.mem_cons_self
      rw [List.cons_append, sendFile, if_neg (by omega),
        List.flatten_cons, ih hReads.tail]
      exact hReads.whole

@[simp] theorem length_sendName
    (destFileName : List UInt8)
    (memory : Nat → UInt8) :
    (sendName destFileName memory).length = pointerSize := by
  rw [sendName, List.length_take, List.length_append,
    List.length_cons, List.length_ofFn]
  omega

/- Read back, the bytes are the name exactly if it fits. -/
theorem text_sendName_iff
    {destFileName : List UInt8}
    (hName : 0 ∉ destFileName)
    (memory : Nat → UInt8) :
    text 0 (sendName destFileName memory) = destFileName ↔
      destFileName.length ≤ pointerSize := by
  constructor
  · intro hText
    calc
      destFileName.length =
          (text 0 (sendName destFileName memory)).length := by
        rw [hText]
      _ ≤ (sendName destFileName memory).length :=
        (List.takeWhile_prefix _).length_le
      _ = pointerSize := length_sendName _ _
  · intro hFits
    have hText := (text_eq_self_iff 0 destFileName).mpr hName
    rw [sendName, List.take_append, List.take_of_length_le
      hFits]
    cases hRoom : pointerSize - destFileName.length with
    | zero =>
        rw [List.take_zero, List.append_nil]
        exact hText
    | succ n =>
        rw [List.take_succ_cons, text_append_nul]
        exact hText

end TNcp

end P1

end Cs2520

------------------------------------------------------------
-- The Receiver
------------------------------------------------------------

namespace Cs2520

namespace P1

open Lib

/-
  The variables of the receive loop. `faulted` records a
  write behind the end of `mess_buf`; `last` is the second in
  which the connection became readable.
-/
structure TRcv where
  exited : Bool
  faulted : Bool
  isname : Bool
  messBuf : Block UInt8 maxMessLen
  bytesRead : Int
  last : Int

namespace TRcv

/- The state before the loop. -/
def initial
    (messBuf : Block UInt8 maxMessLen)
    (last : Int) : TRcv where
  exited := false
  faulted := false
  isname := true
  messBuf := messBuf
  bytesRead := 0
  last := last

/-
  What a `recv` returns, nothing at the end of the stream,
  and the second in which it does.
-/
structure Ev where
  mess : List UInt8
  now : Int

/-
  The system calls on files, and the printed report. A rate
  over less than a second is a division by zero.
-/
inductive Out where
| openFile (name : List UInt8) : Out
| write (bytes : List UInt8) : Out
| report (megb sec : Int) (rate : Option Int) : Out
deriving DecidableEq

/- `mess_buf[ret] = '\0'` -/
def terminate
    (t : TRcv)
    (ret : Nat) : TRcv :=
  { t with
    messBuf :=
      { bytes := t.messBuf.bytes.set ret 0
        size := by rw [List.length_set, t.messBuf.size] } }

/- The first `recv` gives the name. -/
def openFile
    (t : TRcv)
    (ret : Nat) : TRcv × List Out :=
  if ret < maxMessLen then
    let t := { t.terminate ret with isname := false }
    (t, [.openFile (text 0 t.messBuf.bytes)])
  else
    ({ t with faulted := true }, [])

/- The report at the end of the stream. -/
def report
    (t : TRcv)
    (now : Int) : Out :=
  let megb := t.bytesRead.tdiv 1000000
  let sec := now - t.last
  .report megb sec
    (if sec = 0 then none else some (megb.tdiv sec))

/- One pass of the loop; nothing follows `return`. -/
def step
    (t : TRcv)
    (e : Ev) : TRcv × List Out :=
  if t.exited ∨ t.faulted then
    (t, [])
  else
    let ret := e.mess.length
    let t := { t with messBuf := t.messBuf.write e.mess }
    if t.isname then
      t.openFile ret
    else
      let t := { t with bytesRead := t.bytesRead + ret }
      if ret = 0 then
        ({ t with exited := true }, [t.report e.now])
      else
        (t, [.write (t.messBuf.bytes.take ret)])

/- The receiver process. -/
def machine : Machine TRcv Ev Out where
  step := step

/- The names of the files that are opened. -/
def opened
    (out : List Out) : List (List UInt8) :=
  out.filterMap
    (fun o =>
      match o with
      | .openFile name => some name
      | _ => none)

/- What is written into the open file. -/
def written
    (out : List Out) : List UInt8 :=
  out.flatMap
    (fun o =>
      match o with
      | .write bytes => bytes
      | _ => [])

/- Exactly the named file is opened and written. -/
def Copied
    (name content : List UInt8)
    (out : List Out) : Prop :=
  opened out = [name] ∧ written out = content

instance
    (name content : List UInt8)
    (out : List Out) :
    Decidable (Copied name content out) :=
  inferInstanceAs (Decidable (_ ∧ _))

end TRcv

end P1

end Cs2520

------------------------------------------------------------
-- Any Segmentation
------------------------------------------------------------

namespace Cs2520

namespace P1

namespace TRcv

open Lib

/- The name is known and the connection is open. -/
structure Receiving
    (t : TRcv) : Prop where
  running : t.exited = false
  sound : t.faulted = false
  named : t.isname = false

theorem opened_append
    (out out' : List Out) :
    opened (out ++ out') = opened out ++ opened out' :=
  List.filterMap_append

theorem written_append
    (out out' : List Out) :
    written (out ++ out') = written out ++ written out' :=
  List.flatMap_append

theorem written_write
    (bytes : List UInt8) :
    written [.write bytes] = bytes :=
  List.append_nil bytes

/- A result of `recv` as it lies in `mess_buf`. -/
theorem take_write
    (b : Block UInt8 maxMessLen)
    {mess : List UInt8}
    (hFits : mess.length ≤ maxMessLen) :
    (b.write mess).bytes.take mess.length = mess := by
  rw [b.bytes_write hFits, List.take_left' rfl]

/- Data are written into the file as they are. -/
theorem step_data
    {t : TRcv}
    (h : Receiving t)
    {e : Ev}
    (hPos : 0 < e.mess.length)
    (hFits : e.mess.length ≤ maxMessLen) :
    Receiving (step t e).1 ∧
      (step t e).2 = [.write e.mess] := by
  have hRunning := h.running
  have hSound := h.sound
  have hNamed := h.named
  have hSome : e.mess.length ≠ 0 := by omega
  have hStep :
      step t e =
        ({ t with
            messBuf := t.messBuf.write e.mess
            bytesRead := t.bytesRead + e.mess.length },
          [.write
            ((t.messBuf.write e.mess).bytes.take
              e.mess.length)]) := by
    simp [step, hRunning, hSound, hNamed, hSome]
  rw [hStep, take_write t.messBuf hFits]
  exact ⟨⟨hRunning, hSound, hNamed⟩, rfl⟩

/- The end of the stream is only reported. -/
theorem step_end
    {t : TRcv}
    (h : Receiving t)
    (now : Int) :
    opened (step t { mess := [], now := now }).2 = [] ∧
      written (step t { mess := [], now := now }).2 = [] := by
  have hStep :
      (step t { mess := [], now := now }).2 =
        [({ t with
            messBuf := t.messBuf.write []
            bytesRead := t.bytesRead + (0 : Nat) } :
            TRcv).report now] := by
    simp [step, h.running, h.sound, h.named]
  rw [hStep]
  exact ⟨rfl, rfl⟩

/- All pieces behind the name are written in their order. -/
theorem outputs_data
    {t : TRcv}
    (h : Receiving t)
    {es : List Ev}
    {content : List UInt8}
    (hPieces : Cut maxMessLen content (es.map Ev.mess))
    (now : Int) :
    let out :=
      machine.outputs t (es ++ [{ mess := [], now := now }])
    opened out = [] ∧ written out = content := by
  induction es generalizing t content with
  | nil =>
      rcases step_end h now with ⟨hOpened, hWritten⟩
      dsimp only
      rw [List.nil_append, Machine.outputs, Machine.outputs,
        List.append_nil]
      exact ⟨hOpened, hWritten.trans hPieces.whole⟩
  | cons e es ih =>
      have hPos := hPieces.pos e.mess List.mem_cons_self
      have hFits := hPieces.fits e.mess List.mem_cons_self
      rcases step_data h hPos hFits with ⟨hNext, hOut⟩
      rcases ih hNext hPieces.tail with ⟨hOpened, hWritten⟩
      dsimp only
      rw [List.cons_append, Machine.outputs, opened_append,
        written_append]
      change
        opened (step t e).2 ++ _ = [] ∧
          written (step t e).2 ++ _ = content
      rw [hOut]
      refine ⟨hOpened, ?_⟩
      calc
        written [.write e.mess] ++ _ =
            e.mess ++ (es.map Ev.mess).flatten := by
          rw [written_write]
          exact congrArg (e.mess ++ ·) hWritten
        _ = content := hPieces.whole

/- The first piece is taken for the name. -/
theorem step_name
    (buf : Block UInt8 maxMessLen)
    (last : Int)
    {e : Ev}
    (hFits : e.mess.length < maxMessLen) :
    Receiving (step (initial buf last) e).1 ∧
      (step (initial buf last) e).2 =
        [.openFile (text 0 e.mess)] := by
  have hText :
      text 0
          ((buf.write e.mess).bytes.set e.mess.length 0) =
        text 0 e.mess := by
    have hDrop : 0 < (buf.bytes.drop e.mess.length).length :=
      by
        rw [List.length_drop, buf.size]
        omega
    rw [buf.bytes_write hFits.le,
      List.set_append_right _ _ (le_refl _), Nat.sub_self]
    cases hRest : buf.bytes.drop e.mess.length with
    | nil =>
        rw [hRest] at hDrop
        cases hDrop
    | cons x rest =>
        rw [List.set_cons_zero, text_append_nul]
  have hStep :
      step (initial buf last) e =
        ({ initial buf last with
            isname := false
            messBuf :=
              (({ initial buf last with
                  messBuf := buf.write e.mess } :
                TRcv).terminate e.mess.length).messBuf },
          [.openFile
            (text 0
              ((buf.write e.mess).bytes.set e.mess.length
                0))]) := by
    simp [step, initial, openFile, terminate, hFits]
  rw [hStep, hText]
  exact ⟨⟨rfl, rfl, rfl⟩, rfl⟩

/- A first piece that fills `mess_buf` ends in a fault. -/
theorem step_overrun
    (buf : Block UInt8 maxMessLen)
    (last : Int)
    {e : Ev}
    (hFull : ¬ e.mess.length < maxMessLen) :
    (step (initial buf last) e).1.faulted = true ∧
      (step (initial buf last) e).2 = [] := by
  simp [step, initial, openFile, hFull]

/- Nothing follows a fault. -/
theorem outputs_faulted
    {t : TRcv}
    (hFault : t.faulted = true)
    (es : List Ev) :
    machine.outputs t es = [] := by
  induction es with
  | nil => rfl
  | cons e es ih =>
      have hStep : step t e = (t, []) :=
        if_pos (Or.inr hFault)
      rw [Machine.outputs]
      change (step t e).2 ++ machine.outputs (step t e).1 es = []
      rw [hStep]
      exact ih

end TRcv

end P1

end Cs2520

------------------------------------------------------------
-- Names and Segmentations That Work
------------------------------------------------------------

namespace Cs2520

namespace P1

namespace TRcv

open Lib

/- The output when the stream is cut behind a first piece. -/
theorem copied_cons_iff
    (buf : Block UInt8 maxMessLen)
    (last : Int)
    {name content stream : List UInt8}
    {e : Ev}
    {es : List Ev}
    (hPieces :
      Cut maxMessLen stream ((e :: es).map Ev.mess))
    (now : Int) :
    Copied name content
        (machine.outputs (initial buf last)
          (e :: es ++ [{ mess := [], now := now }])) ↔
      e.mess.length < maxMessLen ∧
        text 0 e.mess = name ∧
        (es.map Ev.mess).flatten = content := by
  rw [List.cons_append, Machine.outputs]
  change
    Copied name content
        ((step (initial buf last) e).2 ++
          machine.outputs (step (initial buf last) e).1 _) ↔ _
  by_cases hFits : e.mess.length < maxMessLen
  · rcases step_name buf last hFits with ⟨hNext, hOut⟩
    rcases outputs_data hNext hPieces.tail now with
      ⟨hOpened, hWritten⟩
    rw [Copied, opened_append, written_append, hOut, hOpened,
      hWritten]
    constructor
    · rintro ⟨hName, hContent⟩
      exact ⟨hFits, List.singleton_inj.mp hName, hContent⟩
    · rintro ⟨_, hName, hContent⟩
      exact ⟨List.singleton_inj.mpr hName, hContent⟩
  · rcases step_overrun buf last hFits with ⟨hFault, hOut⟩
    rw [hOut, outputs_faulted hFault]
    constructor
    · rintro ⟨hName, _⟩
      cases hName
    · rintro ⟨hShort, _⟩
      exact (hFits hShort).elim

/-
  The copy is right exactly when the name fits the size of a
  pointer and the first `recv` returns that many bytes.
-/
theorem copied_iff
    {destFileName content : List UInt8}
    (hName : 0 ∉ destFileName)
    (memory : Nat → UInt8)
    {reads : List (List UInt8)}
    (hReads : Cut maxMessLen content reads)
    {es : List Ev}
    (hPieces :
      Cut maxMessLen (TNcp.stream destFileName memory reads)
        (es.map Ev.mess))
    (buf : Block UInt8 maxMessLen)
    (last now : Int) :
    Copied destFileName content
        (machine.outputs (initial buf last)
          (es ++ [{ mess := [], now := now }])) ↔
      destFileName.length ≤ pointerSize ∧
        (es.head?.map (fun e => e.mess.length)) =
          some pointerSize := by
  rw [TNcp.stream, TNcp.flatten_sendFile hReads] at hPieces
  have hLength :=
    TNcp.length_sendName destFileName memory
  cases es with
  | nil =>
      have hNone := congrArg List.length hPieces.whole
      simp only [List.map_nil, List.flatten_nil,
        List.length_nil, List.length_append, hLength,
        pointerSize] at hNone
      omega
  | cons e es =>
      rw [copied_cons_iff buf last hPieces now,
        hPieces.rest_eq_iff, hLength,
        ← TNcp.text_sendName_iff hName memory]
      constructor
      · rintro ⟨_, hText, hFirst⟩
        rw [hPieces.head_eq (hFirst.trans hLength.symm)]
          at hText
        exact ⟨hText, congrArg some hFirst⟩
      · rintro ⟨hText, hFirst⟩
        have hFirst' : e.mess.length = pointerSize :=
          Option.some.inj hFirst
        refine ⟨?_, ?_, hFirst'⟩
        · rw [hFirst']
          decide
        · rw [hPieces.head_eq (hFirst'.trans hLength.symm)]
          exact hText

/- The name `out` and a file of one byte. -/
def shortName : List UInt8 :=
  [111, 117, 116]

def oneByte : List UInt8 :=
  [104]

/- What is sent for them, with zeroes behind the name. -/
def shortStream : List UInt8 :=
  TNcp.stream shortName (fun _ => 0) [oneByte]

theorem cut_oneByte :
    Cut maxMessLen oneByte [oneByte] :=
  ⟨rfl, by decide, by decide⟩

/- The name arrives by itself. -/
def nameFirst : List Ev :=
  [{ mess := shortStream.take pointerSize, now := 0 },
    { mess := oneByte, now := 0 }]

theorem copied_nameFirst :
    Copied shortName oneByte
      (machine.outputs
        (initial (Block.fill maxMessLen 0) 0)
        (nameFirst ++ [{ mess := [], now := 0 }])) :=
  (copied_iff (by decide) (fun _ => 0) cut_oneByte
    ⟨by decide, by decide, by decide⟩ _ 0 0).mpr
    ⟨by decide, by decide⟩

/-
  When one `recv` returns the name together with the file,
  all of it is taken for the name and the file stays empty.
-/
theorem name_cut :
    ¬ ∀ (destFileName content : List UInt8)
        (memory : Nat → UInt8) (reads : List (List UInt8))
        (es : List Ev),
      0 ∉ destFileName →
        Cut maxMessLen content reads →
          Cut maxMessLen
              (TNcp.stream destFileName memory reads)
              (es.map Ev.mess) →
            Copied destFileName content
              (machine.outputs
                (initial (Block.fill maxMessLen 0) 0)
                (es ++ [{ mess := [], now := 0 }])) := by
  intro hAll
  have hCopied :=
    hAll shortName oneByte (fun _ => 0) [oneByte]
      [{ mess := shortStream, now := 0 }] (by decide)
      cut_oneByte ⟨by decide, by decide, by decide⟩
  have hWritten := hCopied.2
  revert hWritten
  decide +kernel

end TRcv

end P1

end Cs2520
