import Mathlib.Algebra.Ring.Int.Defs
import Mathlib.Data.List.Infix
import Mathlib.Logic.Function.Basic

/-!
# The ping server

The client loop of `main`, cut at its calls of `recv` and `send`. `select` reports sockets in any
order. What the loop computes from a message but never sends is left out.
-/

namespace Comp556.Ping

/-- `BUFFER_LEN`. -/
def bufferLen : Int := 65535

/-- What `recv` returns: bytes, 0 at the end of the stream or because none were asked for, or -1. -/
inductive RecvResult where
  | data (bytes : List UInt8)
  | closed
  | again
  deriving DecidableEq

def RecvResult.value : RecvResult → Int
  | .data bytes => bytes.length
  | .closed => 0
  | .again => -1

def RecvResult.bytes : RecvResult → List UInt8
  | .data bytes => bytes
  | .closed => []
  | .again => []

/-- What `send` returns: a number of bytes, or -1. -/
inductive SendResult where
  | sent (n : Nat)
  | again
  deriving DecidableEq

def SendResult.value : SendResult → Int
  | .sent n => n
  | .again => -1

/-- Memory around the start of a buffer. -/
abbrev Around := Int → UInt8

def Around.store (m : Around) (offset : Int) (bytes : List UInt8) : Around :=
  fun i => if offset ≤ i then (bytes[(i - offset).toNat]?).getD (m i) else m i

def Around.load (m : Around) (offset : Int) (width : Nat) : List UInt8 :=
  (List.range width).map fun (k : Nat) => m (offset + k)

/-- `be16toh(*(unsigned short *)p)`. -/
def be16 (first second : UInt8) : UInt16 := UInt16.ofNat (first.toNat * 256 + second.toNat)

/-- `struct node`. -/
structure Node where
  receivebuffer : Around
  count : Int
  size : UInt16

/-- `current->count += recv(current->socket, current->receivebuffer + current->count, …)`. -/
def Node.recv (node : Node) (r : RecvResult) : Node :=
  { node with
    receivebuffer := node.receivebuffer.store node.count r.bytes
    count := node.count + r.value }

def Node.messageSize (node : Node) : UInt16 := be16 (node.receivebuffer 0) (node.receivebuffer 1)

/-- What `send(current->socket, current->receivebuffer + current->size - current->count, …)` sends. -/
def Node.outgoing (node : Node) : SendResult → List UInt8
  | .sent n => node.receivebuffer.load (node.size.toNat - node.count) n
  | .again => []

/-- Both ends of a connection: the client with the messages it has written, what the server has not
received of them, and what the server has sent. -/
structure Conn where
  node : Node
  isOpen : Bool
  finished : Bool
  messages : List (List UInt8)
  unread : List UInt8
  echo : List UInt8

/-- A possible result of `recv` into `len` bytes: some first part of what is under way. -/
def Conn.Delivers (c : Conn) (len : Int) : RecvResult → Prop
  | .data bytes => bytes ≠ [] ∧ bytes <+: c.unread ∧ (bytes.length ≤ len ∨ len < 0)
  | .closed => c.finished = true ∧ c.unread = [] ∨ len = 0
  | .again => True

instance (c : Conn) (len : Int) : (r : RecvResult) → Decidable (c.Delivers len r)
  | .data _ => inferInstanceAs (Decidable (_ ∧ _ ∧ _))
  | .closed => inferInstanceAs (Decidable (_ ∨ _))
  | .again => isTrue trivial

/-- `recv` into the place that `current->count` gives. -/
def Conn.received (c : Conn) (r : RecvResult) : Conn :=
  { c with node := c.node.recv r, unread := c.unread.drop r.bytes.length }

/-- The client has got as many bytes back as it has written. -/
def Conn.answered (c : Conn) : Prop := c.messages.flatten.length ≤ c.echo.length

instance (c : Conn) : Decidable c.answered := inferInstanceAs (Decidable (_ ≤ _))

/-- A message whose size field is its length. -/
def WellFormed (m : List UInt8) : Prop :=
  18 ≤ m.length ∧ m.length ≤ 65535 ∧ (be16 (m.getD 0 0) (m.getD 1 0)).toNat = m.length

instance (m : List UInt8) : Decidable (WellFormed m) := inferInstanceAs (Decidable (_ ∧ _ ∧ _))

/-- Where the server stands: about to call `select`, or, for one client, in the loop that waits for
the size field, in the loop that waits for the rest, or in the loop that sends. It has crashed when a
copy has run off its buffers or a signal has ended the process. -/
inductive Phase (ι : Type) where
  | select
  | head (i : ι)
  | body (i : ι)
  | answer (i : ι)
  | crashed
  deriving DecidableEq

/-- `count` is the local variable of `main`; `current->count` is in the nodes. -/
structure Server (ι : Type) where
  count : Int
  phase : Phase ι
  conn : ι → Conn

/-- What can happen next: a client writes a message or closes, or the server goes on. -/
inductive Action (ι : Type) where
  | write (i : ι) (m : List UInt8)
  | finish (i : ι)
  | ready (i : ι) (r : RecvResult)
  | readHead (i : ι) (r : RecvResult)
  | headDone (i : ι)
  | readBody (i : ι) (r : RecvResult)
  | bodyDone (i : ι)
  | answer (i : ι) (r : SendResult)
  | answered (i : ι)

def Action.byServer {ι : Type} : Action ι → Bool
  | .write _ _ => false
  | .finish _ => false
  | _ => true

namespace Server

variable {ι : Type} [DecidableEq ι]

def setConn (st : Server ι) (i : ι) (c : Conn) : Server ι := { st with conn := Function.update st.conn i c }

/-- The conditions of the loops, and what the system calls can return. -/
def Enabled (st : Server ι) : Action ι → Prop
  | .write i m => WellFormed m ∧ (st.conn i).finished = false ∧ (st.conn i).answered
  | .finish i => (st.conn i).finished = false ∧ (st.conn i).answered
  | .ready i r => st.phase = .select ∧ (st.conn i).isOpen = true ∧ (st.conn i).Delivers bufferLen r ∧
      r ≠ .again
  | .readHead i r => st.phase = .head i ∧ (st.conn i).node.count < 2 ∧
      (st.conn i).Delivers (bufferLen - (st.conn i).node.count) r
  | .headDone i => st.phase = .head i ∧ ¬ (st.conn i).node.count < 2
  | .readBody i r => st.phase = .body i ∧ ((st.conn i).node.size.toNat : Int) ≠ st.count ∧
      (st.conn i).Delivers (bufferLen - st.count) r
  | .bodyDone i => st.phase = .body i ∧ ((st.conn i).node.size.toNat : Int) = st.count
  | .answer i r => st.phase = .answer i ∧ (st.conn i).node.count ≠ 0 ∧
      r.value ≤ (st.conn i).node.count ∧ r ≠ .sent 0
  | .answered i => st.phase = .answer i ∧ (st.conn i).node.count = 0

instance (st : Server ι) : (a : Action ι) → Decidable (st.Enabled a)
  | .write _ _ => inferInstanceAs (Decidable (_ ∧ _ ∧ _))
  | .finish _ => inferInstanceAs (Decidable (_ ∧ _))
  | .ready _ _ => inferInstanceAs (Decidable (_ ∧ _ ∧ _ ∧ _))
  | .readHead _ _ => inferInstanceAs (Decidable (_ ∧ _ ∧ _))
  | .headDone _ => inferInstanceAs (Decidable (_ ∧ _))
  | .readBody _ _ => inferInstanceAs (Decidable (_ ∧ _ ∧ _))
  | .bodyDone _ => inferInstanceAs (Decidable (_ ∧ _))
  | .answer _ _ => inferInstanceAs (Decidable (_ ∧ _ ∧ _ ∧ _))
  | .answered _ => inferInstanceAs (Decidable (_ ∧ _))

def next (st : Server ι) : Action ι → Server ι
  | .write i m =>
    let c := st.conn i
    st.setConn i { c with messages := c.messages ++ [m], unread := c.unread ++ m }
  | .finish i => st.setConn i { st.conn i with finished := true }
  | .ready i r =>
    let c := (st.conn i).received r
    if c.node.count ≤ 0 then st.setConn i { c with isOpen := false }
    else { st.setConn i c with phase := .head i }
  | .readHead i r => st.setConn i ((st.conn i).received r)
  | .headDone i =>
    let c := st.conn i
    -- `Receive.size - 18` is the `size_t` of a `memcpy`, enormous for a size below 18
    if c.node.messageSize.toNat < 18 then { st with phase := .crashed }
    else { st.setConn i { c with node := { c.node with size := c.node.messageSize } } with phase := .body i }
  | .readBody i r =>
    let c := st.conn i
    -- the bytes go where the count of `main` says, and only that count goes up
    { st.setConn i { c with
        node := { c.node with receivebuffer := c.node.receivebuffer.store st.count r.bytes }
        unread := c.unread.drop r.bytes.length } with
      count := st.count + r.value }
  | .bodyDone i =>
    let node := (st.conn i).node
    { st with phase := if node.count = node.size.toNat then .answer i else .select }
  | .answer i r =>
    let c := st.conn i
    st.setConn i { c with
      node := { c.node with count := c.node.count - r.value }
      echo := c.echo ++ c.node.outgoing r }
  | .answered _ => { st with phase := .select }

def Step (admits : Server ι → Action ι → Prop) (st st' : Server ι) : Prop :=
  ∃ a, st.Enabled a ∧ admits st a ∧ st' = st.next a

def ServerStep (admits : Server ι → Action ι → Prop) (st st' : Server ι) : Prop :=
  ∃ a, a.byServer ∧ st.Enabled a ∧ admits st a ∧ st' = st.next a

/-- Clients that have written nothing yet, and any value of `count`. -/
structure Start (st : Server ι) : Prop where
  phase : st.phase = .select
  count : ∀ i, (st.conn i).node.count = 0
  isOpen : ∀ i, (st.conn i).isOpen = true
  finished : ∀ i, (st.conn i).finished = false
  messages : ∀ i, (st.conn i).messages = []
  unread : ∀ i, (st.conn i).unread = []
  echo : ∀ i, (st.conn i).echo = []

end Server

end Comp556.Ping
