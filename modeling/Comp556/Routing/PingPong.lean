import Comp556.Routing.Protocol

/-!
# Pings and pongs

A pong goes back to the router whose ping it answers, under the name of the router that answers, and
with the time that the ping was sent at.
-/

namespace Comp556.Router

/-- The packet of `send_ping`. -/
def pingPacket (env : Env) (r : Router) : Packet :=
  ⟨(pingPongPacket env r .ping).store32 8 (htonl env.time), pingPongMsgSize⟩

/-- The packet of `recv_ping_send_pong`. -/
def pongPacket (env : Env) (msg : Memory) (r : Router) : Packet :=
  ⟨((pingPongPacket env r .pong).store16 6 (htons (ntohs (msg.load16 4)))).store32 8
    (htonl (ntohl (msg.load32 8))), pingPongMsgSize⟩

theorem sendPing_eq (env : Env) (r : Router) (port : UInt16) :
    sendPing env r port = .send port (pingPacket env r) := rfl

theorem recvPingSendPong_eq (env : Env) (port : UInt16) (msg : Memory) (r : Router) :
    recvPingSendPong env port msg r = [.send port (pongPacket env msg r)] := rfl

section Fields

variable (env : Env) (r : Router) (type : PacketType) (msg : Memory)

private theorem header_type : (pingPongPacket env r type).memory 0 = type.code := by
  rw [pingPongPacket, Buffer.store16_apply_before _ _ (by omega), Buffer.store16_apply_before _ _ (by omega)]
  rfl

private theorem header_source : (pingPongPacket env r type).memory.load16 4 = htons r.routerId :=
  Buffer.load16_store16 ..

theorem pingPacket_type : PacketType.ofCode ((pingPacket env r).block.memory 0) = some .ping := by
  rw [pingPacket, Buffer.store32_apply_before _ _ (by omega), header_type]
  rfl

theorem pingPacket_time : ntohl ((pingPacket env r).block.memory.load32 8) = env.time := by
  rw [pingPacket, Buffer.load32_store32, ntohl_htonl]

theorem pongPacket_type : PacketType.ofCode ((pongPacket env msg r).block.memory 0) = some .pong := by
  rw [pongPacket, Buffer.store32_apply_before _ _ (by omega), Buffer.store16_apply_before _ _ (by omega),
    header_type]
  rfl

theorem pongPacket_source : ntohs ((pongPacket env msg r).block.memory.load16 4) = r.routerId := by
  rw [pongPacket, Buffer.load16_store32_of_apart _ _ (by omega),
    Buffer.load16_store16_of_apart _ _ (by omega), header_source, ntohs_htons]

theorem pongPacket_time :
    ntohl ((pongPacket env msg r).block.memory.load32 8) = ntohl (msg.load32 8) := by
  rw [pongPacket, Buffer.load32_store32, ntohl_htonl]

end Fields

end Comp556.Router
