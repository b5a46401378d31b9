import Stm32Handler.Lib.MsbFirst

/-!
# An I2C bus with one slave

SCL and SDA as the wires show them, `true` for high. SDA is low if the master
or the slave drives it low, and the master drives it only while its pin is an
output. Whatever happens on the bus is an edge of one of the wires: a START or
STOP is an edge of SDA under a high SCL, a bit is what SDA was when SCL rose,
if it is still there when SCL falls.

A slave (`I2cSlave`) follows the edges and changes SDA only after SCL has
fallen; what it answers comes from a device of any kind (`I2cDevice`). A
listener (`I2cDecoder`) follows the same edges on a recorded trace and writes
down what it hears.

The lemmas say what a master does to both at once. Between two bits, with SCL
low (`I2cBus.Low`), it may do with SDA what it likes (`Low.sda`), and a pulse
of SCL is one bit for the slave and for the listener (`Low.pulse`).
-/

namespace Stm32Handler

structure Line where
  scl : Bool
  sda : Bool
  deriving DecidableEq

inductive I2cEdge where
  | none
  | start
  | stop
  | rise (bit : Bool)
  | fall
  deriving DecidableEq

/-- What happens when the wires go from `l` to `l'`. -/
def i2cEdge (l l' : Line) : I2cEdge :=
  match l.scl, l'.scl with
  | false, true => .rise l'.sda
  | true, false => .fall
  | false, false => .none
  | true, true =>
    match l.sda, l'.sda with
    | true, false => .start
    | false, true => .stop
    | _, _ => .none

/-! ### The listener -/

inductive BusEvent where
  | start
  | stop
  | byte (b : Byte)
  | ack
  | nack
  /-- fewer than eight bits, then a START or STOP -/
  | fragment (bits : List Bool)
  deriving DecidableEq

/-- What was heard: the bits of the byte under way, all eight of them until its
acknowledge, and the events before. -/
structure I2cLog where
  bits : List Bool
  events : List BusEvent
  deriving DecidableEq

namespace I2cLog

def commit (log : I2cLog) (bit : Bool) : I2cLog :=
  if log.bits.length = 8 then ⟨[], log.events ++ [if bit then .nack else .ack]⟩
  else if log.bits.length = 7 then
    ⟨log.bits ++ [bit], log.events ++ [.byte (bitsToByte (log.bits ++ [bit]))]⟩
  else ⟨log.bits ++ [bit], log.events⟩

/-- The ninth bit. -/
theorem commit_ack {log : I2cLog} (h : log.bits.length = 8) (bit : Bool) :
    log.commit bit = ⟨[], log.events ++ [if bit then .nack else .ack]⟩ := if_pos h

/-- A START or STOP. -/
def frame (log : I2cLog) (e : BusEvent) : I2cLog :=
  if log.bits.length = 0 ∨ log.bits.length = 8 then ⟨[], log.events ++ [e]⟩
  else ⟨[], log.events ++ [.fragment log.bits, e]⟩

end I2cLog

structure I2cDecoder where
  line : Line
  /-- the bit on SDA since SCL rose -/
  latch : Option Bool
  log : I2cLog
  deriving DecidableEq

namespace I2cDecoder

def init : I2cDecoder := ⟨⟨true, true⟩, none, [], []⟩

def step (d : I2cDecoder) (l : Line) : I2cDecoder :=
  match i2cEdge d.line l with
  | .none => { d with line := l }
  | .start => ⟨l, none, d.log.frame .start⟩
  | .stop => ⟨l, none, d.log.frame .stop⟩
  | .rise bit => ⟨l, some bit, d.log⟩
  | .fall => ⟨l, none, d.latch.elim d.log d.log.commit⟩

end I2cDecoder

/-- The events on a trace that begins on an idle bus. -/
def i2cDecode (trace : List Line) : List BusEvent :=
  (trace.foldl I2cDecoder.step I2cDecoder.init).log.events

/-! ### The slave -/

/-- What a slave is for: it is told of every START and STOP, asked whether it
acknowledges a byte, and asked for bytes. -/
structure I2cDevice (σ : Type*) where
  start : σ → σ
  stop : σ → σ
  write : σ → Byte → Bool × σ
  read : σ → Byte × σ

namespace I2cDevice

variable {σ : Type*} (D : I2cDevice σ)

/-- The answers to a row of bytes, which ends with the first one that is not
acknowledged. -/
def offer : List Byte → σ → List Bool × σ
  | [], dev => ([], dev)
  | b :: bs, dev =>
    if (D.write dev b).1 then
      (true :: (offer bs (D.write dev b).2).1, (offer bs (D.write dev b).2).2)
    else ([false], (D.write dev b).2)

/-- Every byte of the row is acknowledged. -/
def accepts (bytes : List Byte) (dev : σ) : Bool := (D.offer bytes dev).1.all id

/-- A row of bytes read. -/
def supply : ℕ → σ → List Byte × σ
  | 0, dev => ([], dev)
  | n + 1, dev => ((D.read dev).1 :: (supply n (D.read dev).2).1, (supply n (D.read dev).2).2)

end I2cDevice

/-- Bytes of the master and the answers to them. -/
def transcript : List Byte → List Bool → List BusEvent
  | b :: bs, true :: as => .byte b :: .ack :: transcript bs as
  | b :: _, false :: _ => [.byte b]
  | _, _ => []

section Rows

variable {σ : Type*} {D : I2cDevice σ}

theorem offer_ack {b : Byte} {dev : σ} (h : (D.write dev b).1 = true) (bs : List Byte) :
    D.offer (b :: bs) dev =
      (true :: (D.offer bs (D.write dev b).2).1, (D.offer bs (D.write dev b).2).2) :=
  if_pos h

theorem offer_nack {b : Byte} {dev : σ} (h : (D.write dev b).1 = false) (bs : List Byte) :
    D.offer (b :: bs) dev = ([false], (D.write dev b).2) :=
  if_neg (Bool.eq_false_iff.1 h)

theorem accepts_cons (b : Byte) (bs : List Byte) (dev : σ) :
    D.accepts (b :: bs) dev = ((D.write dev b).1 && D.accepts bs (D.write dev b).2) := by
  unfold I2cDevice.accepts
  cases h : (D.write dev b).1 with
  | true => rw [offer_ack h, List.all_cons, id_eq]
  | false =>
    rw [offer_nack h]
    rfl

theorem offer_append (bs bs' : List Byte) (dev : σ) :
    D.offer (bs ++ bs') dev =
      if D.accepts bs dev then
        ((D.offer bs dev).1 ++ (D.offer bs' (D.offer bs dev).2).1,
          (D.offer bs' (D.offer bs dev).2).2)
      else D.offer bs dev := by
  induction bs generalizing dev with
  | nil => rfl
  | cons b bs ih =>
    rw [List.cons_append, accepts_cons]
    cases h : (D.write dev b).1 with
    | true =>
      rw [offer_ack h, offer_ack h, ih, Bool.true_and]
      split <;> rfl
    | false =>
      rw [offer_nack h, offer_nack h, Bool.false_and]
      rfl

theorem accepts_append (bs bs' : List Byte) (dev : σ) :
    D.accepts (bs ++ bs') dev = (D.accepts bs dev && D.accepts bs' (D.offer bs dev).2) := by
  induction bs generalizing dev with
  | nil => rfl
  | cons b bs ih =>
    rw [List.cons_append, accepts_cons, accepts_cons, ih]
    cases h : (D.write dev b).1 with
    | true =>
      rw [offer_ack h, Bool.true_and, Bool.true_and]
    | false => rfl

theorem transcript_append (bs bs' : List Byte) (dev : σ) :
    transcript (bs ++ bs') (D.offer (bs ++ bs') dev).1 =
      transcript bs (D.offer bs dev).1 ++
        if D.accepts bs dev then transcript bs' (D.offer bs' (D.offer bs dev).2).1 else [] := by
  induction bs generalizing dev with
  | nil => rfl
  | cons b bs ih =>
    rw [List.cons_append, accepts_cons]
    cases h : (D.write dev b).1 with
    | true =>
      rw [offer_ack h, offer_ack h, transcript, ih, Bool.true_and]
      rfl
    | false =>
      rw [offer_nack h, offer_nack h, Bool.false_and]
      rfl

end Rows

/-- Bytes of the slave; the master acknowledges all but the last. -/
def received : List Byte → List BusEvent
  | [] => []
  | [v] => [.byte v, .nack]
  | v :: w :: vs => .byte v :: .ack :: received (w :: vs)

inductive I2cPhase where
  | idle
  /-- `addr` until the first byte after a START is complete -/
  | recv (addr : Bool) (bits : List Bool)
  /-- acknowledging; then it is to send if `read` -/
  | ack (read : Bool)
  /-- one bit on SDA and `bits` to follow -/
  | send (bits : List Bool)
  | masterAck
  /-- not taking part until the next START -/
  | wait
  deriving DecidableEq

structure I2cSlave (σ : Type*) where
  phase : I2cPhase
  latch : Option Bool
  /-- `false` while it drives SDA low -/
  sda : Bool
  dev : σ

variable {σ : Type*} (D : I2cDevice σ)

namespace I2cSlave

/-- The next byte of the device, its first bit on SDA. -/
def load (dev : σ) : I2cSlave σ :=
  ⟨.send (msbBits (D.read dev).1).tail, none, (D.read dev).1.getLsbD 7, (D.read dev).2⟩

/-- After the eighth bit of `byte`: acknowledging it or out of the game. -/
def answer (addr : Bool) (byte : Byte) (dev : σ) : I2cSlave σ :=
  if (D.write dev byte).1 then ⟨.ack (addr && byte.getLsbD 0), none, false, (D.write dev byte).2⟩
  else ⟨.wait, none, true, (D.write dev byte).2⟩

/-- SCL falls at the end of a bit. -/
def clock (s : I2cSlave σ) (bit : Bool) : I2cSlave σ :=
  match s.phase with
  | .idle => ⟨.idle, none, s.sda, s.dev⟩
  | .wait => ⟨.wait, none, s.sda, s.dev⟩
  | .recv addr bits =>
    if bits.length = 7 then answer D addr (bitsToByte (bits ++ [bit])) s.dev
    else ⟨.recv addr (bits ++ [bit]), none, s.sda, s.dev⟩
  | .ack read => if read then load D s.dev else ⟨.recv false [], none, true, s.dev⟩
  | .send [] => ⟨.masterAck, none, true, s.dev⟩
  | .send (b :: bits) => ⟨.send bits, none, b, s.dev⟩
  | .masterAck => if bit then ⟨.wait, none, true, s.dev⟩ else load D s.dev

def react (s : I2cSlave σ) (l l' : Line) : I2cSlave σ :=
  match i2cEdge l l' with
  | .none => s
  | .start => ⟨.recv true [], none, true, D.start s.dev⟩
  | .stop => ⟨.idle, none, true, D.stop s.dev⟩
  | .rise bit => { s with latch := some bit }
  | .fall => s.latch.elim s (s.clock D)

theorem clock_latch (s : I2cSlave σ) (bit : Bool) : (s.clock D bit).latch = none := by
  unfold clock
  split
  · rfl
  · rfl
  · split
    · unfold answer
      split <;> rfl
    · rfl
  · split <;> rfl
  · rfl
  · rfl
  · split <;> rfl

end I2cSlave

/-! ### The bus -/

/-- The master's pins, the slave, and what the wires showed after every change. -/
structure I2cBus (σ : Type*) where
  scl : Bool
  /-- what the pin would drive -/
  sdaOut : Bool
  sdaIn : Bool
  slave : I2cSlave σ
  trace : List Line

namespace I2cBus

def line (b : I2cBus σ) : Line := ⟨b.scl, (b.sdaIn || b.sdaOut) && b.slave.sda⟩

/-- The master changes a pin, then the slave reacts. -/
def drive (f : I2cBus σ → I2cBus σ) (b : I2cBus σ) : I2cBus σ :=
  let b₁ := f b
  let b₂ := { b₁ with slave := b.slave.react D b.line b₁.line }
  { b₂ with trace := b.trace ++ [b₁.line, b₂.line] }

def setScl (v : Bool) : I2cBus σ → I2cBus σ := drive D fun b => { b with scl := v }

def setSda (v : Bool) : I2cBus σ → I2cBus σ := drive D fun b => { b with sdaOut := v }

def setSdaIn (v : Bool) : I2cBus σ → I2cBus σ := drive D fun b => { b with sdaIn := v }

/-- The listener at the end of the trace. -/
def heard (b : I2cBus σ) : I2cDecoder := b.trace.foldl I2cDecoder.step I2cDecoder.init

/-- SCL is high: the slave is at `s` and the listener at `log`, both holding
the same bit. -/
structure High (b : I2cBus σ) (s : I2cSlave σ) (log : I2cLog) : Prop where
  scl : b.scl = true
  slave : b.slave = s
  heard : b.heard = ⟨b.line, s.latch, log⟩

/-- SCL is low, between two bits. -/
structure Low (b : I2cBus σ) (s : I2cSlave σ) (log : I2cLog) : Prop where
  scl : b.scl = false
  slave : b.slave = s
  latch : s.latch = none
  heard : b.heard = ⟨b.line, none, log⟩

@[simp] theorem setSda_sdaOut (v : Bool) (b : I2cBus σ) : (b.setSda D v).sdaOut = v := rfl

@[simp] theorem setSda_sdaIn (v : Bool) (b : I2cBus σ) : (b.setSda D v).sdaIn = b.sdaIn := rfl

/-- What a change of the pins does: the wires go to `l`, the slave to `s`, and
the wires with it to `l'`. -/
theorem drive_view {D} {f : I2cBus σ → I2cBus σ} {b : I2cBus σ} {scl out inp : Bool} {l l' : Line}
    {s : I2cSlave σ} (hf : f b = { b with scl := scl, sdaOut := out, sdaIn := inp })
    (hl : ⟨scl, (inp || out) && b.slave.sda⟩ = l) (hs : b.slave.react D b.line l = s)
    (hl' : ⟨scl, (inp || out) && s.sda⟩ = l') :
    (b.drive D f).scl = scl ∧ (b.drive D f).slave = s ∧ (b.drive D f).line = l' ∧
      (b.drive D f).heard = (b.heard.step l).step l' := by
  have hfl : (f b).line = l := by
    rw [hf, ← hl]
    rfl
  have hslave : (b.drive D f).slave = s := by
    show b.slave.react D b.line (f b).line = s
    rw [hfl, hs]
  have hline : (b.drive D f).line = l' := by
    rw [I2cBus.line, hslave, ← hl']
    show Line.mk (f b).scl (((f b).sdaIn || (f b).sdaOut) && _) = _
    rw [hf]
  refine ⟨?_, hslave, hline, ?_⟩
  · show (f b).scl = scl
    rw [hf]
  · show (b.trace ++ [(f b).line, (b.drive D f).line]).foldl I2cDecoder.step I2cDecoder.init = _
    rw [hfl, hline, List.foldl_append]
    rfl

section Lemmas

variable {D} {b : I2cBus σ} {s : I2cSlave σ} {log : I2cLog}

theorem Low.line (h : b.Low s log) : b.line = ⟨false, (b.sdaIn || b.sdaOut) && s.sda⟩ := by
  rw [I2cBus.line, h.scl, h.slave]

theorem High.line (h : b.High s log) : b.line = ⟨true, (b.sdaIn || b.sdaOut) && s.sda⟩ := by
  rw [I2cBus.line, h.scl, h.slave]

/-- **Under a low SCL** nothing on SDA matters. -/
theorem Low.sda {f : I2cBus σ → I2cBus σ} {out inp : Bool} (h : b.Low s log)
    (hf : f b = { b with sdaOut := out, sdaIn := inp }) : (b.drive D f).Low s log := by
  have hreact : b.slave.react D b.line ⟨b.scl, (inp || out) && b.slave.sda⟩ = s := by
    rw [h.line, h.slave, h.scl]
    rfl
  obtain ⟨hscl, hslave, hline, hheard⟩ := drive_view hf rfl hreact rfl
  refine ⟨hscl.trans h.scl, hslave, h.latch, ?_⟩
  rw [hheard, hline, h.heard, h.line, h.slave, h.scl]
  rfl

theorem Low.setSda (h : b.Low s log) (v : Bool) : (b.setSda D v).Low s log := h.sda rfl

theorem Low.setSdaIn (h : b.Low s log) (v : Bool) : (b.setSdaIn D v).Low s log := h.sda rfl

/-- SCL rises: the bit is on SDA. -/
theorem Low.rise (h : b.Low s log) :
    (b.setScl D true).High { s with latch := some b.line.sda } log ∧
      (b.setScl D true).line = ⟨true, b.line.sda⟩ := by
  have hsda : ((b.sdaIn || b.sdaOut) && s.sda) = b.line.sda := by rw [h.line]
  have hreact : b.slave.react D b.line ⟨true, b.line.sda⟩ = { s with latch := some b.line.sda } := by
    rw [h.line, h.slave]
    rfl
  obtain ⟨hscl, hslave, hline, hheard⟩ := drive_view (f := fun b => { b with scl := true }) (b := b)
    rfl (by rw [h.slave, hsda]) hreact (by rw [hsda])
  refine ⟨⟨hscl, hslave, ?_⟩, hline⟩
  show (b.drive D _).heard = ⟨(b.drive D _).line, _, _⟩
  rw [hheard, hline, h.heard, show b.line = ⟨false, b.line.sda⟩ by rw [h.line]]
  cases b.line.sda <;> rfl

/-- SCL falls: the bit is over, unless a START or STOP has taken its place. -/
theorem High.fall (h : b.High s log) :
    (b.setScl D false).Low (s.latch.elim s (s.clock D)) (s.latch.elim log log.commit) := by
  have hreact : b.slave.react D b.line ⟨false, (b.sdaIn || b.sdaOut) && b.slave.sda⟩ =
      s.latch.elim s (s.clock D) := by
    rw [h.line, h.slave]
    rfl
  obtain ⟨hscl, hslave, hline, hheard⟩ :=
    drive_view (f := fun b => { b with scl := false }) rfl rfl hreact rfl
  refine ⟨hscl, hslave, ?_, ?_⟩
  · cases hs : s.latch with
    | none => exact hs
    | some bit => exact s.clock_latch D bit
  · show (b.drive D _).heard = ⟨(b.drive D _).line, _, _⟩
    rw [hheard, hline, h.heard, h.line]
    rfl

/-- **A pulse** is one bit. -/
theorem Low.pulse (h : b.Low s log) :
    ((b.setScl D true).setScl D false).Low (s.clock D b.line.sda) (log.commit b.line.sda) :=
  h.rise.1.fall

/-- The wires stay as they are. -/
theorem High.still {f : I2cBus σ → I2cBus σ} {scl out inp : Bool} (h : b.High s log)
    (hf : f b = { b with scl := scl, sdaOut := out, sdaIn := inp }) (hscl : scl = true)
    (hsda : ((inp || out) && s.sda) = b.line.sda) : (b.drive D f).High s log := by
  have hl : (⟨scl, (inp || out) && s.sda⟩ : Line) = b.line := by rw [hsda, h.line, hscl]
  have hnone : i2cEdge b.line b.line = .none := by
    rw [h.line]
    cases (b.sdaIn || b.sdaOut) && s.sda <;> rfl
  have hreact : b.slave.react D b.line b.line = s := by rw [I2cSlave.react, hnone, h.slave]
  obtain ⟨hscl', hslave, hline, hheard⟩ := drive_view hf (h.slave ▸ hl) hreact hl
  refine ⟨hscl'.trans hscl, hslave, ?_⟩
  rw [hheard, hline, h.heard]
  simp only [I2cDecoder.step, hnone]

theorem High.setScl (h : b.High s log) : (b.setScl D true).High s log :=
  h.still rfl rfl (by rw [h.line])

theorem High.setSda {v : Bool} (h : b.High s log) (hsda : ((b.sdaIn || v) && s.sda) = b.line.sda) :
    (b.setSda D v).High s log :=
  h.still rfl h.scl hsda

theorem High.setSdaIn {v : Bool} (h : b.High s log)
    (hsda : ((v || b.sdaOut) && s.sda) = b.line.sda) : (b.setSdaIn D v).High s log :=
  h.still rfl h.scl hsda

/-- **START**: the master takes SDA down. -/
theorem High.start (h : b.High s log) (hsda : b.line.sda = true) (hinp : b.sdaIn = false) :
    (b.setSda D false).High ⟨.recv true [], none, true, D.start s.dev⟩ (log.frame .start) := by
  have hl : b.line = ⟨true, b.line.sda⟩ := by rw [h.line]
  rw [hsda] at hl
  have hreact : b.slave.react D b.line ⟨true, false⟩ = ⟨.recv true [], none, true, D.start s.dev⟩ := by
    rw [hl, h.slave]
    rfl
  obtain ⟨hscl, hslave, hline, hheard⟩ := drive_view (f := fun b => { b with sdaOut := false })
    rfl (by rw [h.scl, hinp]; rfl) hreact rfl
  refine ⟨hscl.trans h.scl, hslave, ?_⟩
  show (b.drive D _).heard = ⟨(b.drive D _).line, _, _⟩
  rw [hheard, hline, h.heard, hl, h.scl, hinp]
  rfl

/-- **STOP**: the master lets SDA go. -/
theorem High.stop (h : b.High s log) (hout : b.sdaOut = false) (hinp : b.sdaIn = false)
    (hsda : s.sda = true) :
    (b.setSda D true).High ⟨.idle, none, true, D.stop s.dev⟩ (log.frame .stop) := by
  have hl : b.line = ⟨true, false⟩ := by
    rw [h.line, hout, hinp]
    rfl
  have hreact : b.slave.react D b.line ⟨true, true⟩ = ⟨.idle, none, true, D.stop s.dev⟩ := by
    rw [hl, h.slave]
    rfl
  obtain ⟨hscl, hslave, hline, hheard⟩ := drive_view (f := fun b => { b with sdaOut := true })
    rfl (by rw [h.scl, h.slave, hinp, hsda]; rfl) hreact rfl
  refine ⟨hscl.trans h.scl, hslave, ?_⟩
  show (b.drive D _).heard = ⟨(b.drive D _).line, _, _⟩
  rw [hheard, hline, h.heard, hl, h.scl, hinp]
  rfl

end Lemmas

end I2cBus

end Stm32Handler
