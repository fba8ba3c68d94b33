import Mathlib.Tactic

/-! A single-port synchronous RAM: the read address is registered, the word at it is read without a
    clock, so a read answers one cycle late and always with the present content. -/

namespace DsdOrsoc.Schemes

structure SyncRam (α β : Type*) where
  mem : α → β
  addrReg : α

namespace SyncRam

variable {α β : Type*}

/-- The data output. -/
def doq (r : SyncRam α β) : β := r.mem r.addrReg

variable [DecidableEq α]

/-- One clock edge with chip enable, write enable, address and data. -/
def clk (r : SyncRam α β) (ce we : Bool) (addr : α) (di : β) : SyncRam α β where
  mem := if we && ce then Function.update r.mem addr di else r.mem
  addrReg := if ce then addr else r.addrReg

variable (r : SyncRam α β) (a : α) (d : β) (we : Bool)

@[simp] theorem clk_true_addrReg : (r.clk true we a d).addrReg = a := rfl

@[simp] theorem clk_read (ce : Bool) : (r.clk ce false a d).mem = r.mem := rfl

@[simp] theorem clk_write : (r.clk true true a d).mem = Function.update r.mem a d := rfl

end SyncRam

end DsdOrsoc.Schemes
