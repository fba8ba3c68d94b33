import DsdOrsoc.Yadmc.Sdram16

/-! The SDRAM chip on the other side of the pins, as its datasheet has it for CAS latency 2 and
    sequential bursts of eight:

        READ at edge n    beat k leaves the array at edge n+k and is on the data lines between
                          edges n+k+1 and n+k+2; DQM at edge n+k masks it
        WRITE at edge n   beat k is taken from the data lines at edge n+k unless DQM masks it

    A later READ, WRITE, burst stop or precharge of the bank cuts a burst short, and CKE low at an
    edge suspends the next one. A line nobody drives, or that both sides drive, carries anything. -/

namespace DsdOrsoc.Yadmc

/-- A burst in progress, with the number of its next beat. -/
structure Burst where
  write : Bool
  bank : Bank
  row : Row
  col : Column
  beat : ℕ

/-- The column of a beat: a sequential burst wraps inside its block of eight. -/
def Burst.column (b : Burst) : Column :=
  b.col.extractLsb' 3 6 ++ (b.col.extractLsb' 0 3 + BitVec.ofNat 3 b.beat)

structure Chip where
  mem : Bank → Row → Column → BitVec 16
  rows : Bank → Option Row
  burst : Option Burst
  pipe : Option (BitVec 16)
  dq : Option (BitVec 16)
  ckeZ : Bool

/-- The open rows after a command. -/
def rowsAfter (rows : Bank → Option Row) : Cmd → Bank → Option Row
  | .prechargeAll => fun _ => none
  | .precharge b => Function.update rows b none
  | .activate b r => Function.update rows b (some r)
  | .read b _ true | .write b _ true => Function.update rows b none
  | _ => rows

/-- The burst that has a beat at an edge: a new one, or the old one if the command lets it go on. -/
def burstAt (rows : Bank → Option Row) (old : Option Burst) : Cmd → Option Burst
  | .read b c _ => (rows b).map fun r => ⟨false, b, r, c, 0⟩
  | .write b c _ => (rows b).map fun r => ⟨true, b, r, c, 0⟩
  | .burstStop | .prechargeAll => none
  | .precharge b => old.filter fun B => B.bank ≠ b
  | _ => old

/-- What is left of a burst after one of its beats. -/
def Burst.next (B : Burst) : Option Burst :=
  if B.beat < 7 then some { B with beat := B.beat + 1 } else none

namespace Chip

variable (c : Chip) (p : Pins) (float : BitVec 16)

/-- The data lines as the chip sees them. -/
def busIn : BitVec 16 := if p.dqDriveN || c.dq.isSome then float else p.dqOut

/-- The data lines as the controller sees them. -/
def busOut : BitVec 16 := if p.dqDriveN then c.dq.getD float else float

/-- The array after the beat of a burst. -/
def memAfter : Option Burst → Bank → Row → Column → BitVec 16
  | some B =>
    if B.write && !p.dqm then fun b r k =>
      if b = B.bank ∧ r = B.row ∧ k = B.column then c.busIn p float else c.mem b r k
    else c.mem
  | none => c.mem

/-- What leaves the array with the beat of a burst. -/
def pipeAfter : Option Burst → Option (BitVec 16)
  | some B => if B.write || p.dqm then none else some (c.mem B.bank B.row B.column)
  | none => none

/-- One rising edge of the clock. -/
def clk : Chip :=
  if c.ckeZ then
    let B := burstAt c.rows c.burst p.cmd
    { mem := c.memAfter p float B
      rows := rowsAfter c.rows p.cmd
      burst := B.bind Burst.next
      pipe := c.pipeAfter p B
      dq := c.pipe
      ckeZ := p.cke }
  else { c with ckeZ := p.cke }

end Chip

end DsdOrsoc.Yadmc
