import Comp556.Foundation.Table
import Comp556.Foundation.Memory

/-!
# Router state

The tables of `RoutingProtocolImpl` and of the `DVProImp` it owns, as one record: the two classes
share `neighbor_table`, `routing_table` and `port_table` through pointers. Router ids, ports and
costs are 16 bits wide, times are 32 bits wide, and their arithmetic wraps as in the source.
-/

namespace Comp556

def infinityCost : UInt16 := 0xffff
def specialPort : UInt16 := 0xffff

def pongTimeout : UInt32 := 15000
def dvLsTimeout : UInt32 := 45000

def pingDuration : UInt32 := 10000
def dvDuration : UInt32 := 30000
def lsDuration : UInt32 := 30000
def timeoutDuration : UInt32 := 1000

def pingPongMsgSize : UInt16 := 12

/-- `eProtocolType`. -/
inductive ProtocolType where
  | dv
  | ls
  deriving DecidableEq, Repr

/-- `ePacketType`; a packet carries the position of its type in this list as its first byte. -/
inductive PacketType where
  | data
  | ping
  | pong
  | dv
  | ls
  deriving DecidableEq, Repr

def PacketType.code : PacketType → UInt8
  | .data => 0
  | .ping => 1
  | .pong => 2
  | .dv => 3
  | .ls => 4

def PacketType.ofCode (b : UInt8) : Option PacketType :=
  [PacketType.data, .ping, .pong, .dv, .ls].find? fun t => t.code = b

/-- The strings a router hands to `set_alarm`. -/
inductive Alarm where
  | ping
  | dv
  | ls
  | port
  deriving DecidableEq, Repr

/-- An entry of `neighbor_table`: cost, port, deadline. -/
structure Link where
  cost : UInt16
  port : UInt16
  timeout : UInt32
  deriving DecidableEq, Repr

/-- An entry of `routing_table`. -/
structure Route where
  cost : UInt16
  nextHop : UInt16
  deriving DecidableEq, Repr

/-- An entry of a row of `graph`. -/
structure Edge where
  cost : UInt16
  timeout : UInt32
  deriving DecidableEq, Repr

abbrev NeighborTable := Table UInt16 Link
abbrev PortTable := Table UInt16 UInt16
abbrev RoutingTable := Table UInt16 Route
abbrev Graph := Table UInt16 (Table UInt16 Edge)

structure Router where
  numPorts : UInt16
  routerId : UInt16
  protocolType : ProtocolType
  neighborTable : NeighborTable
  portTable : PortTable
  routingTable : RoutingTable
  /-- `DV_time` of the distance-vector half: the deadline of each route. -/
  dvTime : Table UInt16 UInt32
  /-- False while a change of `routing_table` has not been announced yet. -/
  isUpdated : Bool
  graph : Graph
  maxSequenceNum : Table UInt16 UInt64
  sequenceNum : UInt64

/-- The router that `init` leaves behind. -/
def Router.init (numPorts routerId : UInt16) (protocolType : ProtocolType) : Router where
  numPorts := numPorts
  routerId := routerId
  protocolType := protocolType
  neighborTable := .empty
  portTable := .empty
  routingTable := .empty
  dvTime := .empty
  isUpdated := true
  graph := .empty
  maxSequenceNum := .empty
  sequenceNum := 0

/-- A packet: the block that holds it and the size that travels with it. -/
structure Packet where
  block : Buffer
  size : UInt16

/-- The calls a router makes on its `Node`. -/
inductive SysCall where
  | send (port : UInt16) (packet : Packet)
  | setAlarm (duration : UInt32) (alarm : Alarm)

/-- What a handler meets outside the router: the clock, the contents of fresh memory, and the
places the hash tables choose for new keys. -/
structure Env where
  time : UInt32
  fresh : Memory
  layout : Layout UInt16

/-- A message that carries a byte at each of the given offsets. -/
def sampleMemory (bytes : List (Nat × UInt8)) : Memory := fun i => (bytes.lookup i).getD 0

def samplePacket (bytes : List (Nat × UInt8)) (size : UInt16) : Packet :=
  ⟨⟨size.toNat, sampleMemory bytes, []⟩, size⟩

def sampleEnv (time : UInt32) : Env := ⟨time, sampleMemory [], .front UInt16⟩

end Comp556
