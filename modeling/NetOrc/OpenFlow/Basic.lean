import Mathlib.Data.List.Basic

/-!
This module contains the OpenFlow 1.0 data model of `oflib`: packet types, headers, frames and the
per connection state.
-/

namespace Oflib

abbrev Bytes := List UInt8

def kOFVersion10 : UInt8 := 0x01

def kOFHeaderLen : Nat := 8

def kOFMaxFrameLen : Nat := 65535

/--
The `type` byte of a header. The `static_cast` from the wire yields all 256 values, not only the
named ones.
-/
structure PacketType where
  byte : UInt8
  deriving DecidableEq, Repr

namespace PacketType

def hello : PacketType := ⟨0⟩
def error : PacketType := ⟨1⟩
def echoRequest : PacketType := ⟨2⟩
def echoReply : PacketType := ⟨3⟩
def vendor : PacketType := ⟨4⟩
def featuresRequest : PacketType := ⟨5⟩
def featuresReply : PacketType := ⟨6⟩
def getConfigRequest : PacketType := ⟨7⟩
def getConfigReply : PacketType := ⟨8⟩
def setConfig : PacketType := ⟨9⟩
def packetIn : PacketType := ⟨10⟩
def flowRemoved : PacketType := ⟨11⟩
def portStatus : PacketType := ⟨12⟩
def packetOut : PacketType := ⟨13⟩
def flowMod : PacketType := ⟨14⟩
def portMod : PacketType := ⟨15⟩
def statsRequest : PacketType := ⟨16⟩
def statsReply : PacketType := ⟨17⟩
def barrierRequest : PacketType := ⟨18⟩
def barrierReply : PacketType := ⟨19⟩
def queueGetConfigRequest : PacketType := ⟨20⟩
def queueGetConfigReply : PacketType := ⟨21⟩

end PacketType

structure Header where
  version : UInt8 := 0
  type : UInt8 := 0
  length : UInt16 := 0
  xid : UInt32 := 0
  deriving DecidableEq, Repr

structure Frame where
  header : Header := {}
  body : Bytes := []
  deriving DecidableEq, Repr

def Frame.type (frame : Frame) : PacketType := ⟨frame.header.type⟩

inductive SessionState where
  | connected
  | helloDone
  | featuresDone
  | active
  | closing
  deriving DecidableEq, Repr

/--
The state of one switch connection. The time stamp `last_activity` is left out: nothing reads it.
-/
structure Connection where
  fd : Int32 := -1
  state : SessionState := .connected
  inbuf : Bytes := []
  deriving DecidableEq, Repr

inductive ParseStatus where
  | needMore
  | ok
  | invalid
  deriving DecidableEq, Repr

/--
The ways in which a call fails to return: a C++ exception, or a read past the end of a vector, which
the language leaves undefined.
-/
inductive Fault where
  | lengthError
  | badFunctionCall
  | outOfRange (index : Nat)
  deriving DecidableEq, Repr

def advanceLifecycle (conn : Connection) (type : PacketType) : Connection :=
  match conn.state with
  | .connected => if type = .hello then { conn with state := .helloDone } else conn
  | .helloDone =>
    if type = .featuresReply ∨ type = .featuresRequest then
      { conn with state := .featuresDone }
    else
      conn
  | .featuresDone => { conn with state := .active }
  | .active | .closing => conn

def SessionState.advance (state : SessionState) (type : PacketType) : SessionState :=
  (advanceLifecycle { state := state } type).state

theorem advanceLifecycle_eq (conn : Connection) (type : PacketType) :
    advanceLifecycle conn type = { conn with state := conn.state.advance type } := by
  rcases conn with ⟨fd, state, inbuf⟩
  unfold SessionState.advance advanceLifecycle
  cases state with
  | connected => dsimp only; split <;> rfl
  | helloDone => dsimp only; split <;> rfl
  | featuresDone => rfl
  | active => rfl
  | closing => rfl

@[simp]
theorem advanceLifecycle_inbuf (conn : Connection) (type : PacketType) :
    (advanceLifecycle conn type).inbuf = conn.inbuf := by
  rw [advanceLifecycle_eq]

def closeConnection (conn : Connection) : Connection :=
  if conn.fd ≥ 0 then { conn with fd := -1, state := .closing } else conn

end Oflib
