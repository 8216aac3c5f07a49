import Comp556.Foundation.Memory
import Comp556.Ping.Server

/-!
# The ping client

One turn of the loop of `main`: a message is made, sent, and waited for. The program is cut at its
calls of `send` and `recv`; the latency it prints is left out.
-/

namespace Comp556.Ping

/-- `htobe16` and `htobe64` of a little-endian host, as bytes in memory. -/
def beBytes (width value : Nat) : List UInt8 := (leBytes width value).reverse

/-- The message in `sendbuffer`: its size, the time in two parts, and the data. -/
def pingMessage (size : UInt16) (sec usec : UInt64) : List UInt8 :=
  beBytes 2 size.toNat ++ beBytes 8 sec.toNat ++ beBytes 8 usec.toNat ++ List.replicate (size.toNat - 18) 0x30

/-- The counters are `send_cnt_thistime` and `receive_cnt_thistime`. -/
structure Client where
  size : UInt16
  sendbuffer : Around
  receivebuffer : Around
  sendCnt : Int
  receiveCnt : Int

namespace Client

/-- `send_cnt_thistime = send(sock, sendbuffer, size, 0)`. -/
def firstSend (c : Client) (r : SendResult) : Client := { c with sendCnt := r.value }

/-- A turn of `while (send_cnt_thistime < size)`. -/
def nextSend (c : Client) (r : SendResult) : Client := { c with sendCnt := c.sendCnt + r.value }

/-- What a call of `send` from this place of `sendbuffer` hands over. -/
def outgoing (c : Client) (offset : Int) : SendResult → List UInt8
  | .sent n => c.sendbuffer.load offset n
  | .again => []

/-- `receive_cnt_thistime = recv(sock, receivebuffer, size, 0)`. -/
def firstRecv (c : Client) (r : RecvResult) : Client :=
  { c with
    receivebuffer := c.receivebuffer.store 0 r.bytes
    receiveCnt := r.value }

/-- A turn of `while (receive_cnt_thistime < size)`. -/
def nextRecv (c : Client) (r : RecvResult) : Client :=
  { c with
    receivebuffer := c.receivebuffer.store c.receiveCnt r.bytes
    receiveCnt := c.receiveCnt + r.value }

end Client

private theorem beBytes_length (width value : Nat) : (beBytes width value).length = width := by
  simp [beBytes]

private theorem pingMessage_length {size : UInt16} (h : 18 ≤ size.toNat) (sec usec : UInt64) :
    (pingMessage size sec usec).length = size.toNat := by
  simp only [pingMessage, List.length_append, beBytes_length, List.length_replicate]
  omega

theorem pingMessage_wellFormed {size : UInt16} (h : 18 ≤ size.toNat) (sec usec : UInt64) :
    WellFormed (pingMessage size sec usec) := by
  have hlength := pingMessage_length h sec usec
  have hlt := size.toNat_lt
  have hhead :
      beBytes 2 size.toNat = [UInt8.ofNat (size.toNat / 256 % 256), UInt8.ofNat (size.toNat % 256)] := rfl
  refine ⟨by omega, by omega, ?_⟩
  rw [hlength, pingMessage, hhead]
  simp only [List.cons_append, List.getD_cons_zero, List.getD_cons_succ, be16]
  have hfirst : (UInt8.ofNat (size.toNat / 256 % 256)).toNat = size.toNat / 256 := by
    rw [UInt8.toNat_ofNat']
    omega
  have hsecond : (UInt8.ofNat (size.toNat % 256)).toNat = size.toNat % 256 := by
    rw [UInt8.toNat_ofNat']
    omega
  rw [hfirst, hsecond, UInt16.toNat_ofNat']
  omega

end Comp556.Ping
